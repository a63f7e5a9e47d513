/-!
# Type codes

Operands and operations of a serialized NNAPI model carry a number for their type. Most numbers have a
name.
-/

namespace ModelGraph.Nnapi

def operandTypeNames : List String := [
  "float32", "int32", "uint32", "float32*", "int32*", "quant8_asymm*", "boolean", "quant16_symm*",
  "float16*", "boolean*", "float16", "quant8_symm_per_channel*", "quant16_asymm*", "quant8_symm*",
  "quant8_asymm_signed*"]

def operationNames : List String := [
  "ADD", "AVERAGE_POOL_2D", "CONCATENATION", "CONV_2D", "DEPTHWISE_CONV_2D", "DEPTH_TO_SPACE",
  "DEQUANTIZE", "EMBEDDING_LOOKUP", "FLOOR", "FULLY_CONNECTED", "HASHTABLE_LOOKUP",
  "L2_NORMALIZATION", "L2_POOL_2D", "LOCAL_RESPONSE_NORMALIZATION", "LOGISTIC", "LSH_PROJECTION",
  "LSTM", "MAX_POOL_2D", "MUL", "RELU", "RELU1", "RELU6", "RESHAPE", "RESIZE_BILINEAR", "RNN",
  "SOFTMAX", "SPACE_TO_DEPTH", "SVDF", "TANH", "BATCH_TO_SPACE_ND", "DIV", "MEAN", "PAD",
  "SPACE_TO_BATCH_ND", "SQUEEZE", "STRIDED_SLICE", "SUB", "TRANSPOSE", "ABS", "ARGMAX", "ARGMIN",
  "AXIS_ALIGNED_BBOX_TRANSFORM", "BIDIRECTIONAL_SEQUENCE_LSTM", "BIDIRECTIONAL_SEQUENCE_RNN",
  "BOX_WITH_NMS_LIMIT", "CAST", "CHANNEL_SHUFFLE", "DETECTION_POSTPROCESSING", "EQUAL", "EXP",
  "EXPAND_DIMS", "GATHER", "GENERATE_PROPOSALS", "GREATER", "GREATER_EQUAL", "GROUPED_CONV_2D",
  "HEATMAP_MAX_KEYPOINT", "INSTANCE_NORMALIZATION", "LESS", "LESS_EQUAL", "LOG", "LOGICAL_AND",
  "LOGICAL_NOT", "LOGICAL_OR", "LOG_SOFTMAX", "MAXIMUM", "MINIMUM", "NEG", "NOT_EQUAL", "PAD_V2",
  "POW", "PRELU", "QUANTIZE", "QUANTIZED_16BIT_LSTM", "RANDOM_MULTINOMIAL", "REDUCE_ALL",
  "REDUCE_ANY", "REDUCE_MAX", "REDUCE_MIN", "REDUCE_PROD", "REDUCE_SUM", "ROI_ALIGN",
  "ROI_POOLING", "RSQRT", "SELECT", "SIN", "SLICE", "SPLIT", "SQRT", "TILE", "TOPK_V2",
  "TRANSPOSE_CONV_2D", "UNIDIRECTIONAL_SEQUENCE_LSTM", "UNIDIRECTIONAL_SEQUENCE_RNN",
  "RESIZE_NEAREST_NEIGHBOR", "QUANTIZED_LSTM", "IF", "WHILE", "ELU", "HARD_SWISH", "FILL", "RANK"]

/-- The name at a place of a table. -/
def nameAt? (names : List String) (code : Int) : Option String :=
  if 0 ≤ code then names[code.toNat]? else none

/-- The number of an operand's type. -/
structure OperandType where
  code : Int32
  deriving DecidableEq, Inhabited

namespace OperandType

def boolean : OperandType := ⟨6⟩
def int32 : OperandType := ⟨1⟩
def int32Tensor : OperandType := ⟨4⟩

/-- The name of the type; number 15 is free. -/
def name? (t : OperandType) : Option String :=
  if t.code = 16 then some "model" else nameAt? operandTypeNames t.code.toInt

def text (t : OperandType) : String := t.name?.getD (toString t.code.toInt)

end OperandType

/-- The number of an operation. -/
structure OperationType where
  code : Int32
  deriving DecidableEq, Inhabited

namespace OperationType

def name? (t : OperationType) : Option String := nameAt? operationNames t.code.toInt

def text (t : OperationType) : String := t.name?.getD (toString t.code.toInt)

end OperationType

end ModelGraph.Nnapi
