import LLDBGhidra.Plugin.LLDBScopeContainer
import LLDBGhidra.Plugin.LLDBReadonly
import LLDBGhidra.Plugin.LLDBScopeConfinement
import LLDBGhidra.Plugin.ParseAddress
import LLDBGhidra.Decompiler.SleighArch
import LLDBGhidra.Plugin.CompilerSpec
import LLDBGhidra.Plugin.LLDBLoadImage
import LLDBGhidra.Plugin.LLDBStrings
import LLDBGhidra.Plugin.EmitAnsi
import LLDBGhidra.Plugin.DecompileErrors
import LLDBGhidra.Library.PartMap
import LLDBGhidra.Plugin.ReadonlyProperty
import LLDBGhidra.Decompiler.GlobalContext
import LLDBGhidra.Decompiler.GlobalContextView
import LLDBGhidra.Decompiler.ContextCache
import LLDBGhidra.Decompiler.TrackedContext
import LLDBGhidra.Decompiler.RangeListRemove
import LLDBGhidra.Decompiler.BitFunctions
import LLDBGhidra.Decompiler.OpBehavior
import LLDBGhidra.Decompiler.PcodeMeaning
import LLDBGhidra.Decompiler.OpRecovery
import LLDBGhidra.Library.BitCover
import LLDBGhidra.Decompiler.NZMask
import LLDBGhidra.Library.Worklist
import LLDBGhidra.Decompiler.NZMaskGrowth
import LLDBGhidra.Decompiler.CalcNZMask
import LLDBGhidra.Decompiler.CalcNZMaskSound
