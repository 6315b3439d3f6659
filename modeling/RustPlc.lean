import RustPlc.L2Semantics.AccessControl
import RustPlc.L2Semantics.Overrides
import RustPlc.L2Syntax.AccessPaths
import RustPlc.L2Syntax.BlockComments
import RustPlc.L3Vm.Bounded
import RustPlc.L3Vm.Pointers
import RustPlc.L3Vm.Stepping
import RustPlc.L4Agree.BitStrings
import RustPlc.L4Agree.FirstCall
import RustPlc.L4Agree.LiteralValues
import RustPlc.L4Agree.PartialAccess
import RustPlc.L4Agree.StringAlgebra
import RustPlc.L4Correct.Correct
import RustPlc.L5Devices.Checksum
import RustPlc.L5Devices.Chunking
import RustPlc.L5Devices.FieldAddresses
import RustPlc.L5Devices.Independence
import RustPlc.L5Devices.RegisterValues
import RustPlc.L5Devices.Registry
import RustPlc.L5Devices.RequestCodecs
import RustPlc.L5Devices.Responses
import RustPlc.L5Devices.SerialBus
import RustPlc.L5Devices.UppDecoding
import RustPlc.L5Devices.Writes
import RustPlc.L5Engine.Restarts
import RustPlc.L5Engine.RetainFile
import RustPlc.L5Stdlib.Counters
import RustPlc.L5Stdlib.Timers
import RustPlc.L6Editor.Formatting
import RustPlc.L6Editor.InheritanceCycles
import RustPlc.L6Editor.Positions
import RustPlc.L6Target.AddressSpace
import RustPlc.L6Target.Crash
import RustPlc.L6Target.CycleLoop
import RustPlc.L6Target.DapFraming
import RustPlc.L6Target.DebugPositions
import RustPlc.L6Target.Discovery
import RustPlc.L6Target.MonitorPush
import RustPlc.L6Target.PathMapping
import RustPlc.L6Target.RequestSafety
import RustPlc.L6Target.RuntimeCommands
import RustPlc.L6Target.Strip
import RustPlc.L6Target.WriteBack
