import Mathlib
/-!
# The state transitions of the lexer

The lexer is a state machine over the character codes of a source record.  A
state may be accepting: it then names the function that makes a fragment of
what was read, or says that this was whitespace or a comment.  In some states
an action decides whether they accept.

Transitions are written as in the source: a character, a string in which a
hyphen between two characters stands for a range, or `otherwise` for all
remaining characters that source code may contain.
-/

namespace OpenDylan.Compiler.Lexer

/-! ## Characters -/

/-- A character code, at most `$max-lexer-code`. -/
abbrev Code := Fin 256

scoped instance codesNeZero : NeZero 256 := ⟨by decide⟩

/-- `$ascii-8-bit-extensions` -/
def ascii8BitExtensions : String :=
  String.ofList [Char.ofNat 128, '-', Char.ofNat 255]

/-- `$full-character-set` -/
def fullCharacterSet : List Char :=
  "\t\n\x0c\r -~".toList ++ ascii8BitExtensions.toList

/-- What a transition is on. -/
inductive Input where
  | character (char : Char)
  | string (on : String)
  | otherwise

instance : Coe Char Input := ⟨Input.character⟩

instance : Coe String Input := ⟨Input.string⟩

/-- Whether `add-transition` adds a code for a string: `last` is the character
that a range may start from, and `range` says that a hyphen was just seen. -/
def covers (code : Code) : List Char → Option Char → Bool → Bool
  | [], _, _ => false
  | char :: rest, last, true =>
      match last with
      | some first =>
          (first.toNat < code.val && code.val ≤ char.toNat) ||
            covers code rest none false
      | none =>
          code.val == '-'.toNat || code.val == char.toNat ||
            covers code rest (some char) false
  | char :: rest, last, false =>
      if char = '-' then
        covers code rest last true
      else
        code.val == char.toNat || covers code rest (some char) false

/-- Whether a transition is on a code. -/
def Input.accepts (code : Code) : Input → Bool
  | .character char => code.val == char.toNat
  | .string on => covers code on.toList none false
  | .otherwise => covers code fullCharacterSet none false

/-! ## States -/

/-- The names of the states. -/
inductive StateName where
  | notAllowed | start | whitespace | slash | singleLineComment
  | singleLineCommentCr | singleLineCommentEnd | delimitedCommentStart
  | delimitedCommentSlash | delimitedCommentSlashSlash | delimitedCommentStar
  | delimitedCommentBody | delimitedCommentEnd | sharp | sharpParen
  | sharpBracket | sharpBrace | sharpSharp | sharpColon | sharpColonAlphabetic
  | sharpColonNonAlphabetic | sharpColon1alpha | sharpColonDone | trueState
  | falseState | sharpN | sharpNe | sharpNex | sharpNext | sharpR | sharpRe
  | sharpRes | sharpRest | sharpK | sharpKe | sharpKey | sharpA | sharpAl
  | sharpAll | sharpAllHyphen | sharpAllHyphenK | sharpAllHyphenKe
  | sharpAllHyphenKey | sharpAllHyphenKeys | sharpB | binaryInteger
  | binaryIntegerUnderscore | sharpO | octalInteger | octalIntegerUnderscore
  | sharpX | hexInteger | hexIntegerUnderscore | lparen | rparen | comma | dot
  | dotDot | ellipsis | semicolon | colon | colonEqual | doubleColon
  | lbracket | rbracket | lbrace | rbrace | minus | equal | doubleEqual
  | arrow | question | doubleQuestion | questionEqual | questionAt | backslash
  | backslashDot | backslashDotDot | backslashEllipsis | backslashQuestion
  | backslashSharp | backslashSharpN | backslashSharpNe | backslashSharpNex
  | backslashSharpNext | backslashSharpR | backslashSharpRe
  | backslashSharpRes | backslashSharpRest | backslashSharpK
  | backslashSharpKe | backslashSharpKey | backslashSharpA | backslashSharpAl
  | backslashSharpAll | backslashSharpAllHyphen | backslashSharpAllHyphenK
  | backslashSharpAllHyphenKe | backslashSharpAllHyphenKey
  | backslashSharpAllHyphenKeys | backslashDoubleQuestion
  | backslashQuestionEqual | backslashPercent | backslashDone | backslashTilde
  | backslashTildeEqual | backslashColon | backslashColonColon
  | backslashGraphic | backslashGraphicDone | backslashGraphicPreEqual
  | backslashSymbol | backslashDigit | backslashDigitAlpha | plus | tilde
  | tildeEqual | tildeEqualEqual | operatorGraphic | operatorGraphicPreEqual
  | leadingGraphic | leadingDollar | historyOrLeadingGraphic
  | leadingUnderscore | symbol | colonKeyword | cnameBinop | cnameGraphicBinop
  | cnameTilde | cnameTildeEqual | cnameTildeDoubleEqual | cnameAngle
  | cnameAngleEqual | cnameEqual | cnameColon | cnameLeadingNumeric
  | cnameNumericAlpha | cnameLeadingGraphic | cname | colonQname | qnameBinop
  | qnameGraphicBinop | qnameTilde | qnameTildeEqual | qnameTildeDoubleEqual
  | qnameAngle | qnameAngleEqual | qnameEqual | qnameColon
  | qnameLeadingNumeric | qnameNumericAlpha | qnameLeadingGraphic | qname
  | quote | quoteEscape | quoteEscapeLess | quoteHexCharDigits | quoteChar
  | character | stringStart | twoDoubleQuotes | drmStringBody | drmStringEnd
  | drmStringEscape | drmStringEscapeLess | drmStringHexCharDigits
  | multiStringStart | multiStringBody | multiStringBodyContinue
  | multiStringEnd | multiStringEscape | multiStringEscapeLess
  | multiStringHexCharDigits | rawStringStart | rawTwoDoubleQuotes
  | rawOneLineStringBody | rawOneLineStringEnd | rawMultiStringStart
  | rawMultiStringBody | rawMultiStringBodyContinue | rawMultiStringEnd
  | decimal | decimalUnderscore | decimalSlash | numericAlpha | leadingNumeric
  | ratio | signedDecimal | signedDecimalUnderscore | signedDecimalSlash
  | signedRatio | decimalDot | decimalDotDecimal | decimalDotDecimalUnderscore
  | fpE | fpESign | fpExp | fpExpUnderscore | decimalE | decimalExp
  | decimalESign
deriving DecidableEq

/-- What `<fragment-builder>` ranges over, apart from `#f`: functions that make
a fragment, and the two symbols. -/
inductive Builder where
  | whitespace | makeBinaryOperator | comment | hashLparenFragment
  | hashLbracketFragment | hashLbraceFragment | hashHashFragment
  | makeHashLiteral | trueFragment | falseFragment | hashNextFragment
  | hashRestFragment | hashKeyFragment | hashAllKeysFragment
  | parseIntegerLiteral | lparenFragment | rparenFragment | commaFragment
  | dotFragment | ellipsisFragment | semicolonFragment | colonColonFragment
  | lbracketFragment | rbracketFragment | lbraceFragment | rbraceFragment
  | makeMinus | makeEqual | makeDoubleEqual | equalGreaterFragment
  | queryFragment | queryQueryFragment | queryEqualFragment | queryAtFragment
  | makeEscapedEllipsis | makeEscapedQuery | makeEscapedHashNextFragment
  | makeEscapedHashRestFragment | makeEscapedHashKeyFragment
  | makeEscapedHashAllKeysFragment | makeEscapedQueryQuery
  | makeEscapedQueryEqual | makeQuotedName | makeEscapedColonColon | makeTilde
  | makeHistoryName | makeIdentifier | makeKeywordSymbol | makeConstrainedName
  | makeQualifiedName | makeCharacterLiteral | makeStringishLiteral
  | makeRawStringLiteral | parseRatioLiteral | parseFpLiteral | eofMarker
deriving DecidableEq

/-- The actions of the conditionally accepting states. -/
inductive Action where
  | incrementDelimitedCommentStartCount | incrementDelimitedCommentEndCount
  | incrementDoubleQuoteStartCount | incrementDoubleQuoteEndCount
  | resetDoubleQuoteEndCount
deriving DecidableEq

/-- `<state>` and `<conditionally-accepting-state>` -/
structure State where
  fragmentBuilder : Option Builder
  action : Option Action
  transitions : List (Input × StateName)

/-- `state` -/
def state (builder : Option Builder)
    (transitions : List (Input × StateName)) : State where
  fragmentBuilder := builder
  action := none
  transitions := transitions

/-- `conditionally-accepting-state` -/
def conditionallyAcceptingState (builder : Option Builder) (action : Action)
    (transitions : List (Input × StateName)) : State where
  fragmentBuilder := builder
  action := some action
  transitions := transitions

/-- The states that `$initial-state` is compiled from. -/
def machine : StateName → State
  | .notAllowed => state none []
  | .start => state none [
      (" \t\x0c\n\r", .whitespace), ('/', .slash), ('#', .sharp),
      ('(', .lparen), (')', .rparen), (',', .comma), ('.', .dot),
      (';', .semicolon), ('[', .lbracket), (']', .rbracket), ('\x7b', .lbrace),
      ('\x7d', .rbrace), (':', .colon), ('-', .minus), ('=', .equal),
      ('?', .question), ('\\', .backslash), ('+', .plus), ('~', .tilde),
      ("*^&|", .operatorGraphic), ("<>", .operatorGraphicPreEqual),
      ("!%@", .leadingGraphic), ("$", .leadingDollar),
      ("_", .leadingUnderscore), ("A-Za-z", .symbol), ('\'', .quote),
      ('\"', .stringStart), ("0-9", .decimal)]
  | .whitespace => state (some .whitespace) [(" \t\x0c\n\r", .whitespace)]
  | .slash => state (some .makeBinaryOperator) [
      ('/', .singleLineComment), ('*', .delimitedCommentStart)]
  | .singleLineComment => state none [
      ("\n", .singleLineCommentEnd), ("\r", .singleLineCommentCr),
      (.otherwise, .singleLineComment)]
  | .singleLineCommentCr => state (some .comment) [
      ('\n', .singleLineCommentEnd)]
  | .singleLineCommentEnd => state (some .comment) []
  | .delimitedCommentStart => conditionallyAcceptingState none
      .incrementDelimitedCommentStartCount [
      ('/', .delimitedCommentSlash), ('*', .delimitedCommentStar),
      (.otherwise, .delimitedCommentBody)]
  | .delimitedCommentSlash => state none [
      ('/', .delimitedCommentSlashSlash), ('*', .delimitedCommentStart),
      (.otherwise, .delimitedCommentBody)]
  | .delimitedCommentSlashSlash => state none [
      ("\n\r", .delimitedCommentBody),
      (.otherwise, .delimitedCommentSlashSlash)]
  | .delimitedCommentStar => state none [
      ('/', .delimitedCommentEnd), ('*', .delimitedCommentStar),
      (.otherwise, .delimitedCommentBody)]
  | .delimitedCommentBody => state none [
      ('/', .delimitedCommentSlash), ('*', .delimitedCommentStar),
      (.otherwise, .delimitedCommentBody)]
  | .delimitedCommentEnd => conditionallyAcceptingState (some .comment)
      .incrementDelimitedCommentEndCount [
      (.otherwise, .delimitedCommentBody)]
  | .sharp => state none [
      ('(', .sharpParen), ('[', .sharpBracket), ('\x7b', .sharpBrace),
      ('#', .sharpSharp), ('\"', .stringStart), (':', .sharpColon),
      ("bB", .sharpB), ("oO", .sharpO), ("xX", .sharpX), ("tT", .trueState),
      ("fF", .falseState), ("nN", .sharpN), ("rR", .sharpR), ("kK", .sharpK),
      ("aA", .sharpA)]
  | .sharpParen => state (some .hashLparenFragment) []
  | .sharpBracket => state (some .hashLbracketFragment) []
  | .sharpBrace => state (some .hashLbraceFragment) []
  | .sharpSharp => state (some .hashHashFragment) []
  | .sharpColon => state none [
      ("a-zA-Z", .sharpColonAlphabetic),
      ("0-9!&*<>|^$%@_", .sharpColonNonAlphabetic)]
  | .sharpColonAlphabetic => state none [
      (':', .sharpColonDone),
      ("a-zA-Z0-9!&*<>|^$%@_+~?/=-", .sharpColonAlphabetic)]
  | .sharpColonNonAlphabetic => state none [
      ("0-9!&*<>|^$%@_+~?/=-", .sharpColonNonAlphabetic),
      ("a-zA-Z", .sharpColon1alpha)]
  | .sharpColon1alpha => state none [
      ("a-zA-Z", .sharpColonAlphabetic),
      ("0-9!&*<>|^$%@_+~?/=-", .sharpColonNonAlphabetic)]
  | .sharpColonDone => state (some .makeHashLiteral) []
  | .trueState => state (some .trueFragment) []
  | .falseState => state (some .falseFragment) []
  | .sharpN => state none [("eE", .sharpNe)]
  | .sharpNe => state none [("xX", .sharpNex)]
  | .sharpNex => state none [("tT", .sharpNext)]
  | .sharpNext => state (some .hashNextFragment) []
  | .sharpR => state none [("eE", .sharpRe), ('\"', .rawStringStart)]
  | .sharpRe => state none [("sS", .sharpRes)]
  | .sharpRes => state none [("tT", .sharpRest)]
  | .sharpRest => state (some .hashRestFragment) []
  | .sharpK => state none [("eE", .sharpKe)]
  | .sharpKe => state none [("yY", .sharpKey)]
  | .sharpKey => state (some .hashKeyFragment) []
  | .sharpA => state none [("lL", .sharpAl)]
  | .sharpAl => state none [("lL", .sharpAll)]
  | .sharpAll => state none [('-', .sharpAllHyphen)]
  | .sharpAllHyphen => state none [("kK", .sharpAllHyphenK)]
  | .sharpAllHyphenK => state none [("eE", .sharpAllHyphenKe)]
  | .sharpAllHyphenKe => state none [("yY", .sharpAllHyphenKey)]
  | .sharpAllHyphenKey => state none [("sS", .sharpAllHyphenKeys)]
  | .sharpAllHyphenKeys => state (some .hashAllKeysFragment) []
  | .sharpB => state none [("01", .binaryInteger)]
  | .binaryInteger => state (some .parseIntegerLiteral) [
      ("01", .binaryInteger), ('_', .binaryIntegerUnderscore)]
  | .binaryIntegerUnderscore => state none [("01", .binaryInteger)]
  | .sharpO => state none [("0-7", .octalInteger)]
  | .octalInteger => state (some .parseIntegerLiteral) [
      ("0-7", .octalInteger), ('_', .octalIntegerUnderscore)]
  | .octalIntegerUnderscore => state none [("0-7", .octalInteger)]
  | .sharpX => state none [("0-9a-fA-F", .hexInteger)]
  | .hexInteger => state (some .parseIntegerLiteral) [
      ("0-9a-fA-F", .hexInteger), ('_', .hexIntegerUnderscore)]
  | .hexIntegerUnderscore => state none [("0-9a-fA-F", .hexInteger)]
  | .lparen => state (some .lparenFragment) []
  | .rparen => state (some .rparenFragment) []
  | .comma => state (some .commaFragment) []
  | .dot => state (some .dotFragment) [
      ('.', .dotDot), ("0123456789", .decimalDotDecimal)]
  | .dotDot => state none [('.', .ellipsis)]
  | .ellipsis => state (some .ellipsisFragment) []
  | .semicolon => state (some .semicolonFragment) []
  | .colon => state none [
      ('=', .colonEqual), (':', .doubleColon), ("a-zA-Z", .cname),
      ("0-9", .cnameLeadingNumeric), ("!$%@_", .cnameLeadingGraphic),
      ("+/", .cnameBinop), ('-', .cnameBinop), ("*^&|", .cnameGraphicBinop),
      ('~', .cnameTilde), ("<>", .cnameAngle)]
  | .colonEqual => state (some .makeBinaryOperator) [('=', .cnameBinop)]
  | .doubleColon => state (some .colonColonFragment) [('=', .cnameBinop)]
  | .lbracket => state (some .lbracketFragment) []
  | .rbracket => state (some .rbracketFragment) []
  | .lbrace => state (some .lbraceFragment) []
  | .rbrace => state (some .rbraceFragment) []
  | .minus => state (some .makeMinus) [
      ("0-9", .signedDecimal), ('.', .decimalDot)]
  | .equal => state (some .makeEqual) [
      ('=', .doubleEqual), ('>', .arrow), ("a-zA-Z", .symbol),
      ("0-9!&*<|^$%@_-+~?/", .leadingGraphic)]
  | .doubleEqual => state (some .makeDoubleEqual) [
      ("a-zA-Z", .symbol), ("0-9!&*<=>|^$%@_-+~?/", .leadingGraphic)]
  | .arrow => state (some .equalGreaterFragment) [
      ("a-zA-Z", .symbol), ("0-9!&*<=>|^$%@_-+~?/", .leadingGraphic)]
  | .question => state (some .queryFragment) [
      ('?', .doubleQuestion), ('=', .questionEqual), ('@', .questionAt)]
  | .doubleQuestion => state (some .queryQueryFragment) []
  | .questionEqual => state (some .queryEqualFragment) []
  | .questionAt => state (some .queryAtFragment) []
  | .backslash => state none [
      ("-+/", .backslashDone), ('~', .backslashTilde), (':', .backslashColon),
      ('#', .backslashSharp), ("a-zA-Z", .backslashSymbol),
      ("0-9", .backslashDigit), ('%', .backslashPercent),
      ("!$@_", .backslashGraphic), ("&*^|", .backslashGraphicDone),
      ("=<>", .backslashGraphicPreEqual), ('.', .backslashDot),
      ('?', .backslashQuestion)]
  | .backslashDot => state (some .dotFragment) [('.', .backslashDotDot)]
  | .backslashDotDot => state none [('.', .backslashEllipsis)]
  | .backslashEllipsis => state (some .makeEscapedEllipsis) []
  | .backslashQuestion => state (some .makeEscapedQuery) [
      ("?", .backslashDoubleQuestion), ("=", .backslashQuestionEqual)]
  | .backslashSharp => state none [
      ("nN", .backslashSharpN), ("rR", .backslashSharpR),
      ("kK", .backslashSharpK), ("aA", .backslashSharpA)]
  | .backslashSharpN => state none [("eE", .backslashSharpNe)]
  | .backslashSharpNe => state none [("xX", .backslashSharpNex)]
  | .backslashSharpNex => state none [("tT", .backslashSharpNext)]
  | .backslashSharpNext => state (some .makeEscapedHashNextFragment) []
  | .backslashSharpR => state none [("eE", .backslashSharpRe)]
  | .backslashSharpRe => state none [("sS", .backslashSharpRes)]
  | .backslashSharpRes => state none [("tT", .backslashSharpRest)]
  | .backslashSharpRest => state (some .makeEscapedHashRestFragment) []
  | .backslashSharpK => state none [("eE", .backslashSharpKe)]
  | .backslashSharpKe => state none [("yY", .backslashSharpKey)]
  | .backslashSharpKey => state (some .makeEscapedHashKeyFragment) []
  | .backslashSharpA => state none [("lL", .backslashSharpAl)]
  | .backslashSharpAl => state none [("lL", .backslashSharpAll)]
  | .backslashSharpAll => state none [('-', .backslashSharpAllHyphen)]
  | .backslashSharpAllHyphen => state none [("kK", .backslashSharpAllHyphenK)]
  | .backslashSharpAllHyphenK => state none [("eE", .backslashSharpAllHyphenKe)]
  | .backslashSharpAllHyphenKe => state none [
      ("yY", .backslashSharpAllHyphenKey)]
  | .backslashSharpAllHyphenKey => state none [
      ("sS", .backslashSharpAllHyphenKeys)]
  | .backslashSharpAllHyphenKeys =>
      state (some .makeEscapedHashAllKeysFragment) []
  | .backslashDoubleQuestion => state (some .makeEscapedQueryQuery) []
  | .backslashQuestionEqual => state (some .makeEscapedQueryEqual) []
  | .backslashPercent => state none [
      ("-+*/", .backslashDone), ("a-zA-Z", .backslashSymbol),
      ("0-9!&<=>|^$%@_~?", .backslashGraphic)]
  | .backslashDone => state (some .makeQuotedName) []
  | .backslashTilde => state (some .makeQuotedName) [
      ('=', .backslashTildeEqual)]
  | .backslashTildeEqual => state (some .makeQuotedName) [('=', .backslashDone)]
  | .backslashColon => state none [
      ('=', .backslashDone), (':', .backslashColonColon)]
  | .backslashColonColon => state (some .makeEscapedColonColon) []
  | .backslashGraphic => state none [
      ("-0-9!&*<=>|^$%@_+~?/", .backslashGraphic), ("a-zA-Z", .backslashSymbol)]
  | .backslashGraphicDone => state (some .makeQuotedName) [
      ("-0-9!&*<=>|^$%@_+~?/", .backslashGraphic), ("a-zA-Z", .backslashSymbol)]
  | .backslashGraphicPreEqual => state (some .makeQuotedName) [
      ('=', .backslashGraphicDone), ("-0-9!&*<>|^$%@_+~?/", .backslashGraphic),
      ("a-zA-Z", .backslashSymbol)]
  | .backslashSymbol => state (some .makeQuotedName) [
      ("-+~?/!&*<=>|^$%@_0-9a-zA-Z", .backslashSymbol)]
  | .backslashDigit => state none [
      ("-0-9!&*<=>|^$%@_+~?/", .backslashDigit),
      ("a-zA-Z", .backslashDigitAlpha)]
  | .backslashDigitAlpha => state none [
      ("-0-9!&*<=>|^$%@_+~?/", .backslashDigit), ("a-zA-Z", .backslashSymbol)]
  | .plus => state (some .makeBinaryOperator) [
      ("0-9", .signedDecimal), ('.', .decimalDot)]
  | .tilde => state (some .makeTilde) [('=', .tildeEqual)]
  | .tildeEqual => state (some .makeBinaryOperator) [('=', .tildeEqualEqual)]
  | .tildeEqualEqual => state (some .makeBinaryOperator) []
  | .operatorGraphic => state (some .makeBinaryOperator) [
      ("a-zA-Z", .symbol), ("0-9!&*<=>|^$%@_-+~?/", .leadingGraphic)]
  | .operatorGraphicPreEqual => state (some .makeBinaryOperator) [
      ('=', .operatorGraphic), ("a-zA-Z", .symbol),
      ("0-9!&*<>|^$%@_-+~?/", .leadingGraphic)]
  | .leadingGraphic => state none [
      ("0-9!&*<=>|^$%@_+~?/", .leadingGraphic), ('-', .leadingGraphic),
      ("a-zA-Z", .symbol)]
  | .leadingDollar => state none [
      ("0-9", .historyOrLeadingGraphic), ("!&*<=>|^$%@_+~?/", .leadingGraphic),
      ('-', .leadingGraphic), ("a-zA-Z", .symbol)]
  | .historyOrLeadingGraphic => state (some .makeHistoryName) [
      ("0-9", .historyOrLeadingGraphic), ("!&*<=>|^$%@_+~?/", .leadingGraphic),
      ('-', .leadingGraphic), ("a-zA-Z", .symbol)]
  | .leadingUnderscore => state (some .makeIdentifier) [
      ("0-9!&*<=>|^$%@_+~?/", .leadingGraphic), ('-', .leadingGraphic),
      ("a-zA-Z", .symbol)]
  | .symbol => state (some .makeIdentifier) [
      ("a-zA-Z0-9!&*<=>|^$%@_+~?/", .symbol), ('-', .symbol),
      (':', .colonKeyword)]
  | .colonKeyword => state (some .makeKeywordSymbol) [
      ("a-zA-Z", .cname), ("0-9", .cnameLeadingNumeric),
      ("!$%@_", .cnameLeadingGraphic), ("+/", .cnameBinop), ('-', .cnameBinop),
      ("*^&|", .cnameGraphicBinop), ('~', .cnameTilde), ("<>", .cnameAngle),
      ('=', .cnameEqual), (':', .cnameColon)]
  | .cnameBinop => state (some .makeConstrainedName) [(':', .colonQname)]
  | .cnameGraphicBinop => state (some .makeConstrainedName) [
      (':', .colonQname), ("0-9!&*<>|^$%@_+~?/=", .cnameLeadingGraphic),
      ('-', .cnameLeadingGraphic), ("a-zA-Z", .cname)]
  | .cnameTilde => state none [('=', .cnameTildeEqual)]
  | .cnameTildeEqual => state (some .makeConstrainedName) [
      (':', .colonQname), ('=', .cnameTildeDoubleEqual)]
  | .cnameTildeDoubleEqual => state (some .makeConstrainedName) [
      (':', .colonQname)]
  | .cnameAngle => state (some .makeConstrainedName) [
      (':', .colonQname), ('=', .cnameAngleEqual),
      ("0-9!&*<>|^$%@_+~?/", .cnameLeadingGraphic), ('-', .cnameLeadingGraphic),
      ("a-zA-Z", .cname)]
  | .cnameAngleEqual => state (some .makeConstrainedName) [
      (':', .colonQname), ("0-9!&*<>|^$%@_+~?/=", .cnameLeadingGraphic),
      ('-', .cnameLeadingGraphic), ("a-zA-Z", .cname)]
  | .cnameEqual => state (some .makeConstrainedName) [
      (':', .colonQname), ('=', .cnameBinop)]
  | .cnameColon => state none [('=', .cnameBinop)]
  | .cnameLeadingNumeric => state none [
      ("0-9!&*<>|^$%@_+~?/=", .cnameLeadingNumeric),
      ('-', .cnameLeadingNumeric), ("a-zA-Z", .cnameNumericAlpha)]
  | .cnameNumericAlpha => state none [
      ("0-9!&*<>|^$%@_+~?/=", .cnameLeadingNumeric),
      ('-', .cnameLeadingNumeric), ("a-zA-Z", .cname)]
  | .cnameLeadingGraphic => state none [
      ("0-9!&*<>|^$%@_+~?/=", .cnameLeadingGraphic),
      ('-', .cnameLeadingGraphic), ("a-zA-Z", .cname)]
  | .cname => state (some .makeConstrainedName) [
      (':', .colonQname), ("a-zA-Z0-9!&*<>|^$%@_+~?/=", .cname), ('-', .cname)]
  | .colonQname => state none [
      ("a-zA-Z", .qname), ("0-9", .qnameLeadingNumeric),
      ("!$%@_", .qnameLeadingGraphic), ("+/", .qnameBinop), ('-', .qnameBinop),
      ("*^&|", .qnameGraphicBinop), ('~', .qnameTilde), ("<>", .qnameAngle),
      ('=', .qnameEqual), (':', .qnameColon)]
  | .qnameBinop => state (some .makeQualifiedName) []
  | .qnameGraphicBinop => state (some .makeQualifiedName) [
      ("0-9!&*<>|^$%@_+~?/=", .qnameLeadingGraphic),
      ('-', .qnameLeadingGraphic), ("a-zA-Z", .qname)]
  | .qnameTilde => state none [('=', .qnameTildeEqual)]
  | .qnameTildeEqual => state (some .makeQualifiedName) [
      ('=', .qnameTildeDoubleEqual)]
  | .qnameTildeDoubleEqual => state (some .makeQualifiedName) []
  | .qnameAngle => state (some .makeQualifiedName) [
      ('=', .qnameAngleEqual), ("0-9!&*<>|^$%@_+~?/", .qnameLeadingGraphic),
      ('-', .qnameLeadingGraphic), ("a-zA-Z", .qname)]
  | .qnameAngleEqual => state (some .makeQualifiedName) [
      ("0-9!&*<>|^$%@_+~?/=", .qnameLeadingGraphic),
      ('-', .qnameLeadingGraphic), ("a-zA-Z", .qname)]
  | .qnameEqual => state (some .makeQualifiedName) [('=', .qnameBinop)]
  | .qnameColon => state none [('=', .qnameBinop)]
  | .qnameLeadingNumeric => state none [
      ("0-9!&*<>|^$%@_+~?/=", .qnameLeadingNumeric),
      ('-', .qnameLeadingNumeric), ("a-zA-Z", .qnameNumericAlpha)]
  | .qnameNumericAlpha => state none [
      ("0-9!&*<>|^$%@_+~?/=", .qnameLeadingNumeric),
      ('-', .qnameLeadingNumeric), ("a-zA-Z", .qname)]
  | .qnameLeadingGraphic => state none [
      ("0-9!&*<>|^$%@_+~?/=", .qnameLeadingGraphic),
      ('-', .qnameLeadingGraphic), ("a-zA-Z", .qname)]
  | .qname => state (some .makeQualifiedName) [
      ("a-zA-Z0-9!&*<>|^$%@_+~?/=", .qname), ('-', .qname)]
  | .quote => state none [
      ("'", .notAllowed), ('\\', .quoteEscape), (.otherwise, .quoteChar)]
  | .quoteEscape => state none [
      ("\\'\"abefnrt0", .quoteChar), ('<', .quoteEscapeLess)]
  | .quoteEscapeLess => state none [("0-9a-fA-F", .quoteHexCharDigits)]
  | .quoteHexCharDigits => state none [
      ("0-9a-fA-F", .quoteHexCharDigits), ('>', .quoteChar)]
  | .quoteChar => state none [('\'', .character)]
  | .character => state (some .makeCharacterLiteral) []
  | .stringStart => conditionallyAcceptingState none
      .incrementDoubleQuoteStartCount [
      ('\"', .twoDoubleQuotes), ('\\', .drmStringEscape),
      ("\t !#-[]-~", .drmStringBody), (ascii8BitExtensions, .drmStringBody)]
  | .twoDoubleQuotes => conditionallyAcceptingState (some .makeStringishLiteral)
      .incrementDoubleQuoteStartCount [
      ('\"', .multiStringStart)]
  | .drmStringBody => state none [
      ('\"', .drmStringEnd), ('\\', .drmStringEscape),
      ("\t !#-[]-~", .drmStringBody), (ascii8BitExtensions, .drmStringBody)]
  | .drmStringEnd => state (some .makeStringishLiteral) []
  | .drmStringEscape => state none [
      ("\\'\"abefnrt0", .drmStringBody), ('<', .drmStringEscapeLess)]
  | .drmStringEscapeLess => state none [("0-9a-fA-F", .drmStringHexCharDigits)]
  | .drmStringHexCharDigits => state none [
      ("0-9a-fA-F", .drmStringHexCharDigits), ('>', .drmStringBody)]
  | .multiStringStart => conditionallyAcceptingState none
      .incrementDoubleQuoteStartCount [
      ('\"', .multiStringStart), ('\\', .multiStringEscape),
      ("\t\r\n !#-[]-~", .multiStringBody),
      (ascii8BitExtensions, .multiStringBody)]
  | .multiStringBody => conditionallyAcceptingState none
      .resetDoubleQuoteEndCount [
      ('\"', .multiStringEnd), ('\\', .multiStringEscape),
      ('\x0c', .notAllowed), (.otherwise, .multiStringBodyContinue)]
  | .multiStringBodyContinue => state none [
      ('\"', .multiStringEnd), ('\\', .multiStringEscape),
      ('\x0c', .notAllowed), (.otherwise, .multiStringBodyContinue)]
  | .multiStringEnd => conditionallyAcceptingState (some .makeStringishLiteral)
      .incrementDoubleQuoteEndCount [
      ('\"', .multiStringEnd), ('\\', .multiStringEscape),
      ('\x0c', .notAllowed), (.otherwise, .multiStringBody)]
  | .multiStringEscape => conditionallyAcceptingState none
      .resetDoubleQuoteEndCount [
      ("\\'\"abefnrt0", .multiStringBodyContinue),
      ('<', .multiStringEscapeLess)]
  | .multiStringEscapeLess => state none [
      ("0-9a-fA-F", .multiStringHexCharDigits)]
  | .multiStringHexCharDigits => state none [
      ("0-9a-fA-F", .multiStringHexCharDigits), ('>', .multiStringBodyContinue)]
  | .rawStringStart => conditionallyAcceptingState none
      .incrementDoubleQuoteStartCount [
      ('\"', .rawTwoDoubleQuotes), ("\t !#-~", .rawOneLineStringBody),
      (ascii8BitExtensions, .rawOneLineStringBody)]
  | .rawTwoDoubleQuotes => conditionallyAcceptingState
      (some .makeRawStringLiteral) .incrementDoubleQuoteStartCount [
      ('\"', .rawMultiStringStart)]
  | .rawOneLineStringBody => state none [
      ('\"', .rawOneLineStringEnd), ("\t !#-~", .rawOneLineStringBody),
      (ascii8BitExtensions, .rawOneLineStringBody)]
  | .rawOneLineStringEnd => state (some .makeRawStringLiteral) []
  | .rawMultiStringStart => conditionallyAcceptingState none
      .incrementDoubleQuoteStartCount [
      ('\"', .rawMultiStringStart), (.otherwise, .rawMultiStringBody)]
  | .rawMultiStringBody => conditionallyAcceptingState none
      .resetDoubleQuoteEndCount [
      ('\"', .rawMultiStringEnd), (.otherwise, .rawMultiStringBodyContinue)]
  | .rawMultiStringBodyContinue => state none [
      ('\"', .rawMultiStringEnd), (.otherwise, .rawMultiStringBodyContinue)]
  | .rawMultiStringEnd => conditionallyAcceptingState
      (some .makeRawStringLiteral) .incrementDoubleQuoteEndCount [
      ('\"', .rawMultiStringEnd), (.otherwise, .rawMultiStringBody)]
  | .decimal => state (some .parseIntegerLiteral) [
      ("0-9", .decimal), ('/', .decimalSlash), ('.', .decimalDot),
      ("eEsSdDxX", .decimalE), ("ABCF-RT-WYZabcf-rt-wyz", .numericAlpha),
      ("_", .decimalUnderscore)]
  | .decimalUnderscore => state none [("0-9", .decimal)]
  | .decimalSlash => state none [
      ("0-9", .ratio), ("a-zA-Z", .numericAlpha),
      ("!&*<=>|^$%@_+~?/", .leadingNumeric), ('-', .leadingNumeric)]
  | .numericAlpha => state none [
      ("a-zA-Z", .symbol), ("0-9!&*<=>|^$%@_+~?/", .leadingNumeric),
      ('-', .leadingNumeric)]
  | .leadingNumeric => state none [
      ("a-zA-Z", .numericAlpha), ("0-9!&*<=>|^$%@_+~?/", .leadingNumeric),
      ('-', .leadingNumeric)]
  | .ratio => state (some .parseRatioLiteral) [
      ("0-9", .ratio), ("a-zA-Z", .numericAlpha),
      ("-!&*<=>|^$%@_+~?/", .leadingNumeric)]
  | .signedDecimal => state (some .parseIntegerLiteral) [
      ("0-9", .signedDecimal), ('/', .signedDecimalSlash), ('.', .decimalDot),
      ("eEsSdDxX", .fpE), ('_', .signedDecimalUnderscore)]
  | .signedDecimalUnderscore => state none [("0-9", .signedDecimal)]
  | .signedDecimalSlash => state none [("0-9", .signedRatio)]
  | .signedRatio => state (some .parseRatioLiteral) [("0-9", .signedRatio)]
  | .decimalDot => state (some .parseFpLiteral) [
      ("0-9", .decimalDotDecimal), ("eEsSdDxX", .fpE)]
  | .decimalDotDecimal => state (some .parseFpLiteral) [
      ('_', .decimalDotDecimalUnderscore), ("0-9", .decimalDot),
      ("eEsSdDxX", .fpE)]
  | .decimalDotDecimalUnderscore => state none [("0-9", .decimalDotDecimal)]
  | .fpE => state none [('-', .fpESign), ('+', .fpESign), ("0-9", .fpExp)]
  | .fpESign => state none [("0-9", .fpExp)]
  | .fpExp => state (some .parseFpLiteral) [
      ("0-9", .fpExp), ('_', .fpExpUnderscore)]
  | .fpExpUnderscore => state none [("0-9", .fpExp)]
  | .decimalE => state none [
      ("a-zA-Z", .symbol), ("[0-9]", .decimalExp),
      ("!&*<=>|^$%@_~?/", .leadingNumeric), ('-', .decimalESign),
      ('+', .decimalESign)]
  | .decimalExp => state (some .parseFpLiteral) [
      ("0-9", .decimalExp), ("a-zA-Z", .numericAlpha),
      ("!&*<=>|^$%@_+~?/", .leadingNumeric), ("-", .leadingNumeric)]
  | .decimalESign => state none [
      ("0-9", .decimalExp), ("a-zA-Z", .numericAlpha),
      ("!&*<=>|^$%@_+~?/", .leadingNumeric), ("-", .leadingNumeric)]

/-- The entry for a code in the transition table of a state. -/
def StateName.next (name : StateName) (code : Code) : Option StateName :=
  ((machine name).transitions.find? fun transition =>
    transition.1.accepts code).map Prod.snd

end OpenDylan.Compiler.Lexer
