import OpenDylan.Lib.Chain
import OpenDylan.Lib.Word
import OpenDylan.Lib.Specificity
import OpenDylan.Lib.OperatorTree
import OpenDylan.Lib.Merging
import OpenDylan.Lib.Reachability
import OpenDylan.Lib.PairList
import OpenDylan.Runtime.ObjectLock
import OpenDylan.Runtime.ObjectLockSplicing
import OpenDylan.Runtime.ObjectLockExclusion
import OpenDylan.Runtime.Types
import OpenDylan.Runtime.TypeTerms
import OpenDylan.Runtime.SubtypeOrder
import OpenDylan.Runtime.Disjointness
import OpenDylan.Runtime.MethodTable
import OpenDylan.Runtime.MethodTableInvariant
import OpenDylan.Runtime.MethodTableUpdates
import OpenDylan.Runtime.SealedDomains
import OpenDylan.Runtime.SealedDomainInvariant
import OpenDylan.Runtime.MethodOrder
import OpenDylan.Runtime.ClassPrecedence
import OpenDylan.Runtime.SlotLayout
import OpenDylan.Runtime.SlotLayoutInvariant
import OpenDylan.Runtime.SlotLayoutClasses
import OpenDylan.Compiler.MachineWord
import OpenDylan.Compiler.MachineWordRewrites
import OpenDylan.Compiler.MachineWordGraphs
import OpenDylan.Compiler.DefUseChains
import OpenDylan.Compiler.DefUseReplacement
import OpenDylan.Compiler.DefUseInvariant
import OpenDylan.Compiler.Mangling
import OpenDylan.Compiler.MangledBindings
import OpenDylan.Compiler.EmittedNames
import OpenDylan.Compiler.MangledMethods
import OpenDylan.Compiler.BinaryOperands
import OpenDylan.Runtime.Symbols
import OpenDylan.Compiler.NameFilters
import OpenDylan.Runtime.SubclassTest
import OpenDylan.Compiler.LexerTransitions
import OpenDylan.Compiler.Lexer
import OpenDylan.Compiler.LexerLines
import OpenDylan.Compiler.LexerPlacement
import OpenDylan.Compiler.LexerHistory
import OpenDylan.Compiler.LexerComments
import OpenDylan.Lib.KeyedMap
import OpenDylan.Lib.Probing
import OpenDylan.Lib.SlotVector
import OpenDylan.Lib.Primality
import OpenDylan.Runtime.HashTable
import OpenDylan.Runtime.HashTableInvariant
import OpenDylan.Runtime.HashTableRehashing
import OpenDylan.Runtime.HashTableOperations
import OpenDylan.Runtime.HashTableRefinement
import OpenDylan.Runtime.HashTableInPlace
import OpenDylan.Runtime.Deque
import OpenDylan.Runtime.DequeLoops
import OpenDylan.Runtime.DequeRefinement
import OpenDylan.Collections.BitVector
import OpenDylan.Collections.BitVectorLoops
import OpenDylan.Collections.BitSet
import OpenDylan.Lib.Bisection
import OpenDylan.Dood.LazySymbolTable
import OpenDylan.Dood.LazySymbolTableLoading
import OpenDylan.Dood.LazySymbolTableResolving
import OpenDylan.Dood.LazySymbolTableRuns
import OpenDylan.Lib.Positioned
import OpenDylan.Streams.SequenceStream
import OpenDylan.Streams.SequenceStreamRefinement
import OpenDylan.Compiler.Namespaces
import OpenDylan.Compiler.NamespaceTables
import OpenDylan.Compiler.NamespaceLookups
import OpenDylan.Compiler.NamespaceImports
import OpenDylan.Compiler.NamespaceHistories
import OpenDylan.Lib.Words
import OpenDylan.System.Locators
import OpenDylan.System.LocatorParsing
import OpenDylan.System.LocatorRoundTrip
import OpenDylan.System.LocatorStrings
import OpenDylan.System.MicrosoftLocators
import OpenDylan.Collections.Range
import OpenDylan.Lib.Gregorian
import OpenDylan.System.Dates
import OpenDylan.System.DateArithmetic
import OpenDylan.System.Durations
import OpenDylan.Lib.Numeral
import OpenDylan.System.DateStrings
import OpenDylan.System.DateRoundTrip
import OpenDylan.System.DateFields
import OpenDylan.System.DateFormats
import OpenDylan.System.DateFormatAgreement
import OpenDylan.Lib.Runs
import OpenDylan.Compiler.OptimizationQueue
import OpenDylan.Lib.TwoWords
import OpenDylan.Numbers.DoubleInteger
import OpenDylan.Numbers.DoubleIntegerArithmetic
import OpenDylan.Numbers.DoubleIntegerProducts
import OpenDylan.Numbers.IntegerPowers
import OpenDylan.Runtime.MethodSorting
import OpenDylan.Lib.NestedWalk
import OpenDylan.Compiler.LocalExits
import OpenDylan.Lib.Copies
import OpenDylan.Compiler.TailCalls
import OpenDylan.Lib.Pursuit
import OpenDylan.Collections.PairChain
import OpenDylan.Collections.PropertyListRuns
import OpenDylan.Collections.SplitJoin
import OpenDylan.Lib.Ring
import OpenDylan.Dood.WorkQueue
import OpenDylan.Lib.Paging
import OpenDylan.Dood.PageAllocation
import OpenDylan.Lib.StackWalk
import OpenDylan.System.RelativeLocators
import OpenDylan.System.SimplifiedPaths
import OpenDylan.Streams.IndentingStream
import OpenDylan.Streams.IndentingStreamWriting
import OpenDylan.Streams.IndentedText
import OpenDylan.Lib.Lines
import OpenDylan.Streams.LineReading
import OpenDylan.Streams.TextReading
import OpenDylan.Compiler.Dependencies
import OpenDylan.Compiler.ReferenceVectors
import OpenDylan.System.WebLocators
import OpenDylan.System.UrlParsing
import OpenDylan.System.UrlParts
import OpenDylan.System.UrlRoundTrip
import OpenDylan.Lib.Grammar
import OpenDylan.GrammarCompiler.FirstSets
import OpenDylan.GrammarCompiler.CutDerivations
import OpenDylan.GrammarCompiler.FirstSetSearch
import OpenDylan.GrammarCompiler.FirstSetExactness
import OpenDylan.Collections.StretchyVector
import OpenDylan.Collections.StretchyVectorRefinement
import OpenDylan.Collections.StretchyVectorRuns
import OpenDylan.Compiler.StructLayout
import OpenDylan.Compiler.StructLayoutSoundness
import OpenDylan.Compiler.ValuesFolding
import OpenDylan.Runtime.ClassKeyed
import OpenDylan.Runtime.ClassKeyedProbing
import OpenDylan.Runtime.ClassKeyedTables
import OpenDylan.Runtime.ClassKeyedKinds
import OpenDylan.Runtime.ClassKeyedRuns
import OpenDylan.Runtime.DeferredAdditions
import OpenDylan.Runtime.DeferredAdditionRuns
import OpenDylan.Lib.IntegerBits
import OpenDylan.Compiler.SourcePositions
import OpenDylan.Runtime.PositionAugmentation
import OpenDylan.Lib.StableOrder
import OpenDylan.Collections.VectorSorting
import OpenDylan.Collections.StableVectorSorting
import OpenDylan.Collections.UnstableVectorSorting
import OpenDylan.Runtime.DequeIteration
import OpenDylan.Numbers.IntegerGcd
import OpenDylan.Lib.Progression
import OpenDylan.Collections.RangeIntersection
import OpenDylan.Collections.RangeIntersectionMembers
import OpenDylan.Lib.PrefixParsing
import OpenDylan.Compiler.ConstraintParsing
import OpenDylan.Collections.BitVectorFilling
import OpenDylan.Lib.Enumeration
import OpenDylan.Collections.BitSetIteration
import OpenDylan.Collections.RangeSequences
import OpenDylan.Numbers.IntegerStrings
import OpenDylan.Lib.BinaryFloat
import OpenDylan.Numbers.FloatDecoding
