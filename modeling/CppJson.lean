import CppJson.Lib.Ascii
import CppJson.Lib.Prog
import CppJson.Lib.Scan
import CppJson.Lib.Upsert
import CppJson.Lib.Json
import CppJson.Libc.Bytes
import CppJson.Libc.Double
import CppJson.Libc.Lemmas.Digits
import CppJson.Libc.Lemmas.Numbers
import CppJson.CJson.Item
import CppJson.CJson.Parse
import CppJson.CJson.Print
import CppJson.CJson.Object
import CppJson.CJson.Document
import CppJson.CJson.Lemmas.Lexemes
import CppJson.CJson.Lemmas.Print
import CppJson.CJson.Lemmas.Strings
import CppJson.CJson.Lemmas.Parse
import CppJson.CJson.Lemmas.Grammar
import CppJson.CJson.Lemmas.RoundTrip
import CppJson.CJson.Lemmas.Object
import CppJson.Hsm.Engine
import CppJson.Radio.Program
import CppJson.Radio.Input
import CppJson.Radio.Abstract
import CppJson.Radio.Lemmas.Step
import CppJson.Radio.Lemmas.Display
import CppJson.Radio.Lemmas.Run
import CppJson.Radio.Lemmas.Document
import CppJson.Radio.Lemmas.Diagram
import CppJson.Radio.Lemmas.Log
import CppJson.Radio.Lemmas.Notices
import CppJson.Radio.Lemmas.Loop
import CppJson.Radio.Lemmas.Input
import CppJson.Radio.Theorems.Events
import CppJson.Radio.Theorems.Document
import CppJson.Radio.Theorems.Program
import CppJson.CJson.Lemmas.Deletion
import CppJson.CJson.Lemmas.Shape
import CppJson.Hsm.Lemmas.Configuration
import CppJson.Radio.Theorems.Engine
import CppJson.CJson.Lemmas.Tree
import CppJson.CJson.Theorems.Nodes
import CppJson.CJson.Theorems.Texts
import CppJson.CJson.Theorems.Buffers
import CppJson.CJson.Theorems.Minify
import CppJson.Radio.Theorems.Nodes
import CppJson.Elog.Async
import CppJson.Elog.Lemmas.Async
import CppJson.Elog.Lemmas.AsyncRuns
import CppJson.Elog.Lemmas.Framing
import CppJson.Elog.Lemmas.Line
import CppJson.Elog.Lemmas.Logger
import CppJson.Elog.Lemmas.Reading
import CppJson.Elog.Lemmas.TagLevels
import CppJson.Elog.Theorems.Async
import CppJson.Elog.Theorems.Logger
import CppJson.Elog.Theorems.System
