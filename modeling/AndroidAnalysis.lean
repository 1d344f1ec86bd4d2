import AndroidAnalysis.RouteFunc.RouteArm64Forward
import AndroidAnalysis.HookJni.NativeArgs
import AndroidAnalysis.HookJni.CallMethods
import AndroidAnalysis.HookJni.NoEscape
import AndroidAnalysis.HookJni.Bindings
import AndroidAnalysis.HookJni.StoredInfo
import AndroidAnalysis.HookJni.LongName
import AndroidAnalysis.HookJni.PrintedMethod
import AndroidAnalysis.HookJni.ReflectionOrder
import AndroidAnalysis.HookLibc.VetoProtocol
import AndroidAnalysis.HookLibc.VirtualHandles
import AndroidAnalysis.HookLibc.Declining
import AndroidAnalysis.HookJni.DescriptorGrammar
import AndroidAnalysis.HookJni.LangNameSafe
import AndroidAnalysis.HookJni.PrettyNameSafe
import AndroidAnalysis.Machine.Arm64Code
import AndroidAnalysis.RouteFunc.CreateShellcode
import AndroidAnalysis.RouteFunc.ShellcodeArm64
import AndroidAnalysis.RouteFunc.ShellcodePages
import AndroidAnalysis.Machine.Arm32
import AndroidAnalysis.RouteFunc.RouteArm32
import AndroidAnalysis.RouteFunc.RouteArm32Forward
import AndroidAnalysis.HookLibc.Registrations
import AndroidAnalysis.HookLibc.HandleReuse
import AndroidAnalysis.Caller.XposedService
import AndroidAnalysis.Cpp.Vector
import AndroidAnalysis.HookJni.StaticTrampolines
import AndroidAnalysis.Machine.Arm32Code
import AndroidAnalysis.RouteFunc.ShellcodeArm32
import AndroidAnalysis.HookJni.NativeStack
import AndroidAnalysis.HookJni.CallTracing
import AndroidAnalysis.Cpp.Format
import AndroidAnalysis.HookLibc.OnlyWatch
import AndroidAnalysis.HookLibc.FileOps
import AndroidAnalysis.HookLibc.FgetsLines
import AndroidAnalysis.HookLibc.FileSeek
import AndroidAnalysis.HookLibc.FileItems
import AndroidAnalysis.HookLibc.WriteProgress
import AndroidAnalysis.HookJni.ArgsType
import AndroidAnalysis.Utils.HexText
import AndroidAnalysis.Utils.StringSplit
import AndroidAnalysis.HookJni.FormatArgs
import AndroidAnalysis.Cpp.PrintfOutput
import AndroidAnalysis.Utils.Log
import AndroidAnalysis.Utils.LogSinks
import AndroidAnalysis.HookJni.InPlaceHooks
import AndroidAnalysis.Plug.ToolPassRoot
import AndroidAnalysis.Machine.VaListMemory
import AndroidAnalysis.HookJni.VaListWalk
import AndroidAnalysis.Dobby.Assembler
import AndroidAnalysis.Dobby.InstructionRelocation
import AndroidAnalysis.Dobby.MemoryAllocator
import AndroidAnalysis.Dobby.RelocatedInst
import AndroidAnalysis.Dobby.RelocationRun
import AndroidAnalysis.Dobby.Trampoline
import AndroidAnalysis.Dobby.HookDestroy
import AndroidAnalysis.Codec.Sleb128
import AndroidAnalysis.Interposition.SharedRecords
import AndroidAnalysis.Machine.Stored
import AndroidAnalysis.XHook.Core
import AndroidAnalysis.XHook.CoreHooked
import AndroidAnalysis.XHook.CoreRun
import AndroidAnalysis.Dlfc.FakeDlopen
import AndroidAnalysis.XHook.AsyncRefresh
