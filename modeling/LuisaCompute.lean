import LuisaCompute.Core.Decimal
import LuisaCompute.Ast.Type
import LuisaCompute.Ast.TypeParse
import LuisaCompute.Ast.TypeRegistry
import LuisaCompute.Ast.FunctionBuilder
import LuisaCompute.Runtime.Command
import LuisaCompute.Runtime.CommandList
import LuisaCompute.Rtx.Accel
import LuisaCompute.Runtime.Shader
import LuisaCompute.Dsl.Callable
import LuisaCompute.Util.IntegerToString
import LuisaCompute.Ast.ConstantData
import LuisaCompute.Dx.JobSystem
import LuisaCompute.Dx.BucketPool
