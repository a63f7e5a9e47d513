import ModelGraph.Machine.Basic

/-!
# The standard machine

The classes and functions that every load begins with, in the order in which they are bound. Saved
module trees name many classes that need no behaviour: their instances only hold attributes.
-/

namespace ModelGraph

/-- Classes whose instances are bare records, by module. -/
def recordClasses : List (String × List String) := [
  ("torch.autograd.variable", ["Variable"]),
  ("torch.backends.cudnn.rnn", ["Unserializable"]),
  ("torch.distributions.multivariate_normal", ["MultivariateNormal"]),
  ("torch.distributions.transforms", ["LowerCholeskyTransform"]),
  ("torch.nn.backends.thnn", ["_get_thnn_function_backend"]),
  ("torch.nn.intrinsic.modules.fused", ["ConvReLU2d"]),
  ("torch.nn.intrinsic.quantized.modules.conv_relu", ["ConvReLU2d"]),
  ("torch.nn.modules.activation",
    ["CELU", "ELU", "GELU", "GLU", "Hardtanh", "Hardswish", "Hardsigmoid", "LeakyReLU",
      "LogSigmoid", "LogSoftmax", "MultiheadAttention", "ReLU", "ReLU6", "PReLU", "RReLU",
      "SELU", "Sigmoid", "Softmax", "Softmax2d", "Softplus", "Tanh", "Threshold"]),
  ("torch.nn.modules.batchnorm", ["BatchNorm1d", "BatchNorm2d", "BatchNorm3d", "SyncBatchNorm"]),
  ("torch.nn.modules.container", ["ModuleDict", "ModuleList", "ParameterList", "Sequential"]),
  ("torch.nn.modules.conv",
    ["Conv1d", "Conv2d", "Conv3d", "ConvTranspose1d", "ConvTranspose2d", "ConvTranspose3d"]),
  ("torch.nn.modules.distance", ["CosineSimilarity"]),
  ("torch.nn.modules.dropout", ["Dropout", "Dropout2d", "Dropout3d"]),
  ("torch.nn.modules.fold", ["Unfold"]),
  ("torch.nn.modules.flatten", ["Flatten"]),
  ("torch.nn.modules.instancenorm", ["InstanceNorm1d", "InstanceNorm2d", "InstanceNorm3d"]),
  ("torch.nn.modules.linear", ["_LinearWithBias", "Bilinear", "Linear", "Identity"]),
  ("torch.nn.modules.loss",
    ["BCELoss", "BCEWithLogitsLoss", "CrossEntropyLoss", "L1Loss", "MarginRankingLoss",
      "MSELoss", "NLLLoss", "NLLLoss2d", "SmoothL1Loss"]),
  ("torch.nn.modules.module", ["_IncompatibleKeys", "Module"]),
  ("torch.nn.modules.normalization",
    ["CrossMapLRN2d", "GroupNorm", "LayerNorm", "LocalResponseNorm"]),
  ("torch.nn.modules.padding",
    ["ReflectionPad1d", "ReflectionPad2d", "ReplicationPad1d", "ReplicationPad2d",
      "ReplicationPad3d", "ZeroPad2d", "ConstantPad1d", "ConstantPad2d", "ConstantPad3d"]),
  ("torch.nn.modules.pixelshuffle", ["PixelShuffle"]),
  ("torch.nn.modules.pooling",
    ["AdaptiveAvgPool1d", "AdaptiveAvgPool2d", "AdaptiveAvgPool3d", "AdaptiveMaxPool1d",
      "AdaptiveMaxPool2d", "AdaptiveMaxPool3d", "AvgPool1d", "AvgPool2d", "AvgPool3d",
      "FractionalMaxPool2d", "LPPool2d", "MaxPool1d", "MaxPool2d", "MaxPool3d", "MaxUnpool1d",
      "MaxUnpool2d", "MaxUnpool3d"]),
  ("torch.nn.modules.rnn", ["GRU", "GRUCell", "LSTM", "LSTMCell", "RNN"]),
  ("torch.nn.modules.sparse", ["Embedding", "EmbeddingBag"]),
  ("torch.nn.modules.transformer",
    ["Transformer", "TransformerDecoder", "TransformerDecoderLayer", "TransformerEncoder",
      "TransformerEncoderLayer"]),
  ("torch.nn.modules.upsampling", ["Upsample", "UpsamplingBilinear2d", "UpsamplingNearest2d"]),
  ("torch.nn.parallel.data_parallel", ["DataParallel"]),
  ("torch.nn.parallel.distributed", ["DistributedDataParallel"]),
  ("torch.nn.quantized.modules.activation", ["ReLU"]),
  ("torch.nn.quantized.modules.batchnorm", ["BatchNorm2d"]),
  ("torch.nn.quantized.modules.conv", ["Conv2d"]),
  ("torch.nn.quantized.modules", ["DeQuantize"]),
  ("torch.nn.quantized.modules.functional_modules", ["FloatFunctional", "QFunctional"]),
  ("torch.nn.quantized.modules.linear", ["Linear", "LinearPackedParams"]),
  ("torch.nn.quantized.modules", ["Quantize"]),
  ("torch.nn.utils.spectral_norm",
    ["SpectralNorm", "SpectralNormStateDictHook", "SpectralNormLoadStateDictPreHook"]),
  ("torch.nn.utils.weight_norm", ["WeightNorm"]),
  ("torch.optim.adam", ["Adam"]),
  ("torch.optim.adagrad", ["Adagrad"]),
  ("torch.optim.adadelta", ["Adadelta"]),
  ("torch.optim.lr_scheduler",
    ["CosineAnnealingLR", "CyclicLR", "ExponentialLR", "LambdaLR", "MultiStepLR", "StepLR"]),
  ("torch.optim.optimizer", ["_RequiredParameter"]),
  ("torch.optim.rmsprop", ["RMSprop"]),
  ("torch.optim.sgd", ["SGD"]),
  ("torch.quantization.observer", ["_PartialWrapper", "MinMaxObserver"]),
  ("torch.quantization.QConfig", ["QConfig"]),
  ("torch.quantization.stubs", ["DeQuantStub", "QuantStub"]),
  ("torch.utils.data.dataloader", ["DataLoader"]),
  ("torch.utils.data.dataset", ["ConcatDataset"]),
  ("torch.utils.data.sampler", ["BatchSampler", "SequentialSampler"]),
  ("torchvision.datasets.folder", ["ImageFolder"]),
  ("torchvision.datasets.mnist", ["MNIST"]),
  ("torchvision.datasets.vision", ["StandardTransform"]),
  ("torchvision.models.alexnet", ["AlexNet"]),
  ("torchvision.models.densenet", ["DenseNet", "_DenseBlock", "_DenseLayer", "_Transition"]),
  ("torchvision.models.detection._utils",
    ["BalancedPositiveNegativeSampler", "BoxCoder", "Matcher"]),
  ("torchvision.models.detection.backbone_utils", ["BackboneWithFPN"]),
  ("torchvision.models.detection.faster_rcnn", ["FasterRCNN", "FastRCNNPredictor", "TwoMLPHead"]),
  ("torchvision.models.detection.keypoint_rcnn",
    ["KeypointRCNN", "KeypointRCNNHeads", "KeypointRCNNPredictor"]),
  ("torchvision.models.detection.mask_rcnn", ["MaskRCNN", "MaskRCNNHeads", "MaskRCNNPredictor"]),
  ("torchvision.models.detection.roi_heads", ["RoIHeads"]),
  ("torchvision.models.detection.rpn", ["AnchorGenerator", "RegionProposalNetwork", "RPNHead"]),
  ("torchvision.models.detection.transform", ["GeneralizedRCNNTransform"]),
  ("torchvision.models.googlenet", ["BasicConv2d", "GoogLeNet", "Inception"]),
  ("torchvision.models.inception",
    ["BasicConv2d", "Inception3", "InceptionAux", "InceptionA", "InceptionB", "InceptionC",
      "InceptionD", "InceptionE"]),
  ("torchvision.models.mobilenet", ["ConvBNReLU", "MobileNetV2", "InvertedResidual"]),
  ("torchvision.models.resnet", ["Bottleneck", "BasicBlock"]),
  ("torchvision.models.quantization.resnet", ["QuantizableBottleneck", "QuantizableResNet"]),
  ("torchvision.models.segmentation.deeplabv3",
    ["ASPP", "ASPPConv", "ASPPPooling", "DeepLabHead", "DeepLabV3"]),
  ("torchvision.models.segmentation.fcn", ["FCN", "FCNHead"]),
  ("torchvision.models.shufflenetv2", ["ShuffleNetV2", "InvertedResidual"]),
  ("torchvision.models.squeezenet", ["Fire", "SqueezeNet"]),
  ("torchvision.models.resnet", ["ResNet"]),
  ("torchvision.models.vgg", ["VGG"]),
  ("torchvision.models.video.resnet",
    ["BasicBlock", "BasicStem", "Conv2Plus1D", "Conv3DNoTemporal", "Conv3DSimple",
      "R2Plus1dStem", "VideoResNet"]),
  ("torchvision.models._utils", ["IntermediateLayerGetter"]),
  ("torchvision.ops.deform_conv", ["DeformConv2d"]),
  ("torchvision.ops.feature_pyramid_network", ["FeaturePyramidNetwork", "LastLevelMaxPool"]),
  ("torchvision.ops.misc", ["ConvTranspose2d", "FrozenBatchNorm2d"]),
  ("torchvision.ops.poolers", ["LevelMapper", "MultiScaleRoIAlign"]),
  ("torchvision.transforms.transforms",
    ["Compose", "Normalize", "Resize", "ToPILImage", "ToTensor"])]

/-- Classes with a layout of their own. -/
def layoutClasses : List (String × Constructor) := [
  ("argparse.Namespace", .argumentNamespace),
  ("torch.device", .device),
  ("torch.nn.parameter.Parameter", .parameter),
  ("numpy.core.multiarray._reconstruct", .array),
  ("numpy.dtype", .arrayType)]

/-- Types of elements that have a storage class and a tensor class. -/
def elementNames : List String :=
  ["Byte", "Bool", "Char", "Short", "Int", "Long", "Half", "Float", "Double", "QInt8"]

/-- The storage and tensor classes of a package. -/
def elementClasses (package : String) : List (String × Constructor) :=
  elementNames.flatMap fun element =>
    let storage := element ++ "Storage"
    let storages := match ElementType.ofStorageName? storage with
      | some type => [(package ++ "." ++ storage, Constructor.storage type)]
      | none => []
    storages ++ [(package ++ "." ++ element ++ "Tensor", .tensor)]

def compilationClass : String := "__torch__.torch.classes._nnapi.Compilation"

def compilationMethods : List (String × Primitive) :=
  [("__init__", .noOp), ("init", .compilationInit), ("run", .compilationRun)]

/-- Built-in functions by qualified name. -/
def builtinFunctions : List (String × Primitive) := [
  ("__builtin__.bytearray", .bytes),
  ("__builtin__.bytes", .bytes),
  ("__builtin__.getattr", .getAttribute),
  ("__builtin__.set", .set),
  ("__builtin__.slice", .slice),
  ("__builtin__.frozenset", .set),
  ("builtins.bytearray", .bytes),
  ("builtins.bytes", .bytes),
  ("builtins.getattr", .getAttribute),
  ("builtins.set", .set),
  ("builtins.slice", .slice),
  ("builtins.frozenset", .set),
  ("collections.Counter", .counter),
  ("collections.OrderedDict", .orderedDict),
  ("collections.defaultdict", .defaultDict),
  ("_codecs.encode", .encode),
  ("copy_reg._reconstructor", .reconstruct),
  ("copyreg._reconstructor", .reconstruct),
  ("numpy.core.multiarray.scalar", .arrayScalar),
  ("numpy.core._multiarray_umath.scalar", .arrayScalar),
  ("torch._utils._rebuild_tensor", .rebuildTensor),
  ("torch._utils._rebuild_tensor_v2", .rebuildTensorV2),
  ("torch._utils._rebuild_qtensor", .rebuildQuantized),
  ("torch._utils._rebuild_parameter", .rebuildParameter),
  ("torch._utils._rebuild_parameter_with_state", .rebuildParameter),
  ("torch._tensor._rebuild_from_type_v2", .rebuildFromType),
  ("torch.jit._pickle.restore_type_tag", .restoreTypeTag),
  ("torch.jit._pickle.build_intlist", .buildList),
  ("torch.jit._pickle.build_doublelist", .buildList),
  ("torch.jit._pickle.build_boollist", .buildList),
  ("torch.jit._pickle.build_tensorlist", .buildList),
  ("torch.Size", .size),
  ("annotate", .annotate),
  ("unchecked_cast", .annotate),
  ("uninitialized", .uninitialized),
  ("getattr", .getAttribute),
  ("int", .toInt),
  ("float", .toFloat),
  ("range", .range),
  ("ops.prim.data", .identity),
  ("ops.prim.unchecked_unwrap_optional", .identity),
  ("ops.prim.NumToTensor", .numToTensor),
  ("ops.prim.min", .minimum),
  ("ops.prim.shape", .shape),
  ("ops.prim.RaiseException", .raise),
  ("ops.quantized.conv_prepack", .convPrepack),
  ("ops.quantized.conv1d_prepack", .convPrepack),
  ("ops.quantized.conv2d_prepack", .convPrepack),
  ("ops.quantized.conv_transpose2d_prepack", .convPrepack),
  ("ops.quantized.linear_prepack", .linearPrepack),
  ("torch._set_item", .setItem),
  ("torch.__contains__", .contains),
  ("torch.__derive_index", .deriveIndex),
  ("torch.__range_length", .rangeLength),
  ("torch.__is__", .is),
  ("torch.__isnot__", .isNot),
  ("torch.__not__", .not),
  ("torch.__and__", .and),
  ("torch.__or__", .or),
  ("torch.add", .add),
  ("torch.sub", .sub),
  ("torch.mul", .mul),
  ("torch.div", .div),
  ("torch.floordiv", .floorDiv),
  ("torch.remainder", .remainder),
  ("torch.neg", .negate),
  ("torch.eq", .eq),
  ("torch.ne", .ne),
  ("torch.lt", .lt),
  ("torch.le", .le),
  ("torch.gt", .gt),
  ("torch.ge", .ge),
  ("torch.append", .append),
  ("torch.dict", .dict),
  ("torch.dim", .dim),
  ("torch.keys", .keys),
  ("torch.values", .values),
  ("torch.len", .length),
  ("torch.list", .list),
  ("torch.list_with_default", .listWithDefault),
  ("torch.q_scale", .quantizationScale),
  ("torch.t", .identity),
  ("torch.size", .tensorSize),
  ("torch.slice", .tensorSlice),
  ("torch.warn", .warn)]

namespace Heap

/-- Binds a class to its qualified name. -/
def register (h : Heap) (kind : ClassKind) (qualified : String) (fields : Fields := {}) : Heap :=
  let (module, name) := splitQualified qualified
  (h.push (.class { module, name, kind, fields })).bind rootScope (Script.dotParts qualified)
    (.ref h.size)

def registerNative (h : Heap) (c : String × Constructor) : Heap := h.register (.native c.2) c.1

/-- Binds a class whose methods are primitives. -/
def registerMethods (h : Heap) (c : String × Constructor) (methods : List (String × Primitive)) :
    Heap :=
  let start := h.size
  let h := methods.foldl
    (fun h m => h.push (.function ⟨c.1, m.1, .native m.2, true⟩)) h
  h.register (.native c.2) c.1 (.ofList (methods.mapIdx fun i m => (m.1, .ref (start + i))))

def registerFunction (h : Heap) (f : String × Primitive) : Heap :=
  let (module, name) := splitQualified f.1
  (h.push (.function ⟨module, name, .native f.2, false⟩)).bind rootScope (Script.dotParts f.1)
    (.ref h.size)

/-- The heap with everything registered. -/
def standard : Heap := Id.run do
  let mut h : Heap := Heap.push {} (.namespace {})
  for name in ["dict", "list", "bool", "int", "float", "str", "tuple"] do
    h := h.register .builtin ("builtins." ++ name)
  for name in ["Dict", "List", "Optional", "Tuple"] do
    h := h.register (.generic []) ("typing." ++ name)
  h := h.register .builtin "torch.Tensor"
  for (package, names) in recordClasses do
    for name in names do
      h := h.registerNative (package ++ "." ++ name, .plain)
  for c in layoutClasses do
    h := h.registerNative c
  h := h.registerMethods (compilationClass, .compilation) compilationMethods
  for package in ["torch", "torch.cuda"] do
    for c in elementClasses package do
      h := h.registerNative c
  for f in builtinFunctions do
    h := h.registerFunction f
  return h

end Heap

namespace Machine

/-- The machine that a load begins with. -/
def standard : Machine := { heap := Heap.standard }

end Machine

end ModelGraph
