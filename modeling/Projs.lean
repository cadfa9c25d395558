import Projs.Library.LabelledMachine
import Projs.Library.PositionalNumeral
import Projs.Construction.Java.Lang
import Projs.Construction.Poi.Myhandler
import Projs.Construction.Poi.Worksheet
import Projs.Construction.Poi.SheetLayout
import Projs.Proof.Poi.CellReference
import Projs.Proof.Poi.CellRun
import Projs.Proof.Poi.RowRun
import Projs.Proof.Poi.SheetRun
import Projs.Construction.Poi.ExpectedSheet
import Projs.Proof.Poi.RowContents
import Projs.Proof.Poi.SheetContents
import Projs.Proof.Poi.EmptyRow
import Projs.Proof.Poi.Rectangle
import Projs.Proof.Poi.RowIndex
import Projs.Proof.Poi.UnresolvedCell
import Projs.Construction.Storm.WordCountTopology
import Projs.Proof.Storm.Conservation
import Projs.Library.EventTrace
import Projs.Construction.Proxy.Program
import Projs.Construction.Proxy.MainLoop
import Projs.Proof.Proxy.Effects
import Projs.Construction.Proxy.Commands
import Projs.Proof.Proxy.MainRun
import Projs.Proof.Proxy.WorkerTable
import Projs.Proof.Proxy.ExitPaths
import Projs.Proof.Proxy.QuitIsFinal
import Projs.Construction.Proxy.Workers
import Projs.Proof.Proxy.SharedBuffer
import Projs.Library.HandleTrace
import Projs.Construction.Proxy.KillAll
import Projs.Proof.Proxy.HandleUse
import Projs.Library.Tokens
import Projs.Proof.Storm.LineWords
import Projs.Proof.Storm.TupleSums
import Projs.Construction.Java.Charset
import Projs.Proof.Java.Utf8
import Projs.Construction.Hdfs.HdfsTest
import Projs.Proof.Hdfs.ReadFile
import Projs.Construction.JavaUtiler.PostMan
import Projs.Construction.JavaUtiler.FormRules
import Projs.Proof.JavaUtiler.Component
import Projs.Proof.JavaUtiler.ReadBack
import Projs.Library.BijectiveNumeral
import Projs.Proof.Poi.ColumnName
import Projs.Construction.Java.Text
import Projs.Construction.Nasm.ObjList
import Projs.Construction.Nasm.VsProj
import Projs.Proof.Nasm.Cleaning
import Projs.Proof.Nasm.Files
import Projs.Proof.Nasm.Sections
import Projs.Proof.Nasm.Consistency
import Projs.Construction.Nasmlib.RbTree
import Projs.Library.KeyedOrder
import Projs.Proof.Nasmlib.SearchTree
import Projs.Proof.Nasmlib.BlackHeight
import Projs.Construction.Nasmlib.Raa
import Projs.Proof.Nasmlib.Raa
import Projs.Construction.Nasmlib.Crc64
import Projs.Library.OddStride
import Projs.Library.ProbeTable
import Projs.Library.ReflectedCrc
import Projs.Proof.Nasmlib.Crc64
import Projs.Construction.Nasmlib.HashTbl
import Projs.Proof.Nasmlib.HashTbl
import Projs.Proof.Nasmlib.HashRun
import Projs.Construction.Output.StrTbl
import Projs.Proof.Output.StrTbl
import Projs.Construction.Nasmlib.Saa
import Projs.Library.Overwrite
import Projs.Proof.Nasmlib.SaaBlocks
import Projs.Proof.Nasmlib.SaaReads
import Projs.Proof.Nasmlib.SaaRun
import Projs.Construction.Asm.Quote
import Projs.Proof.Asm.Unquote
import Projs.Proof.Asm.QuotedString
import Projs.Proof.Asm.QuoteRoundTrip
import Projs.Construction.Libevent.MinHeap
import Projs.Library.BinaryHeap
import Projs.Proof.Libevent.MinHeapOrder
import Projs.Proof.Libevent.MinHeap
import Projs.Construction.Libevent.EventBase
import Projs.Proof.Libevent.EventQueues
import Projs.Proof.Libevent.TimerRun
import Projs.Proof.Libevent.TimerSafety
import Projs.Construction.Asm.Eval
import Projs.Construction.Asm.ExprTree
import Projs.Proof.Asm.ExprVector
import Projs.Proof.Asm.ExprArithmetic
import Projs.Proof.Asm.Ilog2
import Projs.Proof.Asm.EvalOperators
import Projs.Proof.Asm.EvalOperands
import Projs.Proof.Asm.EvalLevels
import Projs.Proof.Asm.EvalAtoms
import Projs.Proof.Asm.EvalRun
import Projs.Proof.Asm.EvalEnds
import Projs.Proof.Java.Encoding
