import JosSmp.Library.Bisection
import JosSmp.Library.Block
import JosSmp.Library.Leads
import JosSmp.Library.Linked
import JosSmp.Library.Longest
import JosSmp.Library.Numeral
import JosSmp.Library.Outcome
import JosSmp.Library.Overlay
import JosSmp.Library.Poll
import JosSmp.Library.Ring
import JosSmp.Library.Run
import JosSmp.Library.Window
import JosSmp.Library.Words
import JosSmp.Construction.Boot.Main
import JosSmp.Construction.Boot.Ports
import JosSmp.Construction.Boot.Start
import JosSmp.Construction.Inc.Mmu
import JosSmp.Construction.Inc.Queue
import JosSmp.Construction.Kern.Commands
import JosSmp.Construction.Kern.ConsoleInit
import JosSmp.Construction.Kern.ConsoleInput
import JosSmp.Construction.Kern.ConsoleOutput
import JosSmp.Construction.Kern.Entry
import JosSmp.Construction.Kern.Getchar
import JosSmp.Construction.Kern.Init
import JosSmp.Construction.Kern.Kdebug
import JosSmp.Construction.Kern.Keyboard
import JosSmp.Construction.Kern.Monitor
import JosSmp.Construction.Kern.Printf
import JosSmp.Construction.Kern.Session
import JosSmp.Construction.Kern.Start
import JosSmp.Construction.Lib.Compare
import JosSmp.Construction.Lib.Copy
import JosSmp.Construction.Lib.Memmove
import JosSmp.Construction.Lib.Memset
import JosSmp.Construction.Lib.Nsipc
import JosSmp.Construction.Lib.Printfmt
import JosSmp.Construction.Lib.Readline
import JosSmp.Construction.Lib.Snprintf
import JosSmp.Construction.Lib.String
import JosSmp.Construction.Machine.CallStack
import JosSmp.Construction.Machine.Cpu
import JosSmp.Construction.Machine.Drive
import JosSmp.Construction.Machine.Memory
import JosSmp.Construction.Machine.Processor
import JosSmp.Construction.Machine.Uart
import JosSmp.Construction.Machine.Word
import JosSmp.Proof.Boot.Load
import JosSmp.Proof.Boot.Overcopy
import JosSmp.Proof.Boot.Ports
import JosSmp.Proof.Boot.Reads
import JosSmp.Proof.Boot.Sectors
import JosSmp.Proof.Boot.Segment
import JosSmp.Proof.Boot.Start
import JosSmp.Proof.Console.Count
import JosSmp.Proof.Console.Devices
import JosSmp.Proof.Console.InputQueue
import JosSmp.Proof.Console.InputRun
import JosSmp.Proof.Console.Overprint
import JosSmp.Proof.Console.Ports
import JosSmp.Proof.Console.Printed
import JosSmp.Proof.Console.Refinement
import JosSmp.Proof.Console.Screen
import JosSmp.Proof.Console.Terminal
import JosSmp.Proof.Entry.Descriptor
import JosSmp.Proof.Entry.PageTable
import JosSmp.Proof.Entry.PowerOn
import JosSmp.Proof.Entry.Relocate
import JosSmp.Proof.Entry.Start
import JosSmp.Proof.Inc.Queue
import JosSmp.Proof.Kdebug.Arguments
import JosSmp.Proof.Kdebug.Bounds
import JosSmp.Proof.Kdebug.Bracket
import JosSmp.Proof.Kdebug.Debuginfo
import JosSmp.Proof.Kdebug.ExactMatch
import JosSmp.Proof.Kdebug.FunctionName
import JosSmp.Proof.Kdebug.Names
import JosSmp.Proof.Kdebug.Search
import JosSmp.Proof.Kdebug.Termination
import JosSmp.Proof.Keyboard.Decoder
import JosSmp.Proof.Keyboard.Modifiers
import JosSmp.Proof.Keyboard.Navigation
import JosSmp.Proof.Keyboard.Ordinary
import JosSmp.Proof.Machine.Cpu
import JosSmp.Proof.Monitor.Backtrace
import JosSmp.Proof.Monitor.CallStack
import JosSmp.Proof.Monitor.Init
import JosSmp.Proof.Monitor.Input
import JosSmp.Proof.Monitor.Messages
import JosSmp.Proof.Monitor.Parse
import JosSmp.Proof.Monitor.Runcmd
import JosSmp.Proof.Monitor.Session
import JosSmp.Proof.Monitor.Shell
import JosSmp.Proof.Nsipc.Pages
import JosSmp.Proof.Nsipc.Reply
import JosSmp.Proof.Nsipc.Request
import JosSmp.Proof.Printfmt.Buffer
import JosSmp.Proof.Printfmt.Compose
import JosSmp.Proof.Printfmt.Directive
import JosSmp.Proof.Printfmt.ErrorCode
import JosSmp.Proof.Printfmt.Field
import JosSmp.Proof.Printfmt.Format
import JosSmp.Proof.Printfmt.Items
import JosSmp.Proof.Printfmt.Justified
import JosSmp.Proof.Printfmt.Nested
import JosSmp.Proof.Printfmt.Number
import JosSmp.Proof.Printfmt.Overread
import JosSmp.Proof.Printfmt.Precision
import JosSmp.Proof.Printfmt.ReadBack
import JosSmp.Proof.Printfmt.Robust
import JosSmp.Proof.Printfmt.Settings
import JosSmp.Proof.Printfmt.Silent
import JosSmp.Proof.Printfmt.Sink
import JosSmp.Proof.Printfmt.Spelling
import JosSmp.Proof.Printfmt.StringField
import JosSmp.Proof.Printfmt.Text
import JosSmp.Proof.Readline.Editor
import JosSmp.Proof.Readline.Returned
import JosSmp.Proof.Readline.Visible
import JosSmp.Proof.String.Compare
import JosSmp.Proof.String.Copy
import JosSmp.Proof.String.LongestNumeral
import JosSmp.Proof.String.Memmove
import JosSmp.Proof.String.Memset
import JosSmp.Proof.String.Strtol
