import ModelGraph.Operator.Catalog

/-!
# The standard catalog

The schemas that are known without a document.
-/

namespace ModelGraph.Operator

/-- Modules of the neural network library. -/
def moduleSchemas : List Schema := [
  { name := "torch.nn.modules.conv.Conv2d"
    category := some "Layer"
    inputs := [.named "input", .named "weight", .named "bias"]
    attributes := [.typed "in_channels" "int64", .typed "out_channels" "int64",
      .typed "kernel_size" "int64[]", (Parameter.typed "stride" "int64[]").withDefault (.int 1),
      (Parameter.typed "padding" "int64[]").withDefault (.int 0),
      (Parameter.typed "dilation" "int64[]").withDefault (.int 1),
      (Parameter.typed "output_padding" "int64[]").withDefault (.int 0),
      (Parameter.typed "groups" "int64").withDefault (.int 1),
      (Parameter.typed "transposed" "boolean").withDefault (.bool false),
      (Parameter.typed "padding_mode" "string").withDefault (.string "zeros")] },
  { name := "torch.nn.modules.conv.Conv1d"
    category := some "Layer"
    inputs := [.named "input", .named "weight", .named "bias"]
    attributes := [.typed "in_channels" "int64", .typed "out_channels" "int64",
      .typed "kernel_size" "int64[]", (Parameter.typed "stride" "int64[]").withDefault (.int 1),
      (Parameter.typed "padding" "int64[]").withDefault (.int 0),
      (Parameter.typed "dilation" "int64[]").withDefault (.int 1),
      (Parameter.typed "output_padding" "int64[]").withDefault (.int 0),
      (Parameter.typed "groups" "int64").withDefault (.int 1),
      (Parameter.typed "transposed" "boolean").withDefault (.bool false),
      (Parameter.typed "padding_mode" "string").withDefault (.string "zeros")] },
  { name := "torch.nn.modules.linear.Linear"
    category := some "Layer"
    inputs := [.named "input", .named "weight", .named "bias"]
    attributes := [.typed "in_features" "int64", .typed "out_features" "int64"] },
  { name := "torch.nn.modules.batchnorm.BatchNorm1d"
    category := some "Normalization"
    inputs := [.named "input", .named "weight", .named "bias", .named "running_mean",
      .named "running_var", (Parameter.named "num_batches_tracked").hidden]
    attributes := [.typed "num_features" "int64",
      (Parameter.typed "eps" "float32").withDefault (.float 1e-05),
      (Parameter.typed "momentum" "float32").withDefault (.float 0.1),
      (Parameter.typed "affine" "boolean").withDefault (.bool true),
      (Parameter.typed "track_running_stats" "boolean").withDefault (.bool true)] },
  { name := "torch.nn.modules.batchnorm.BatchNorm2d"
    category := some "Normalization"
    inputs := [.named "input", .named "weight", .named "bias", .named "running_mean",
      .named "running_var", (Parameter.named "num_batches_tracked").hidden]
    attributes := [.typed "num_features" "int64",
      (Parameter.typed "eps" "float32").withDefault (.float 1e-05),
      (Parameter.typed "momentum" "float32").withDefault (.float 0.1),
      (Parameter.typed "affine" "boolean").withDefault (.bool true),
      (Parameter.typed "track_running_stats" "boolean").withDefault (.bool true)] },
  { name := "torch.nn.modules.normalization.LayerNorm"
    category := some "Normalization"
    inputs := [.named "input", .named "weight", .named "bias"]
    attributes := [.typed "normalized_shape" "int64[]",
      (Parameter.typed "eps" "float32").withDefault (.float 1e-05),
      (Parameter.typed "elementwise_affine" "boolean").withDefault (.bool true)] },
  { name := "torch.nn.modules.sparse.Embedding"
    category := some "Transform"
    inputs := [.named "input", .named "weight"]
    attributes := [.typed "num_embeddings" "int64", .typed "embedding_dim" "int64",
      (Parameter.typed "padding_idx" "int64").withDefault .null,
      (Parameter.typed "max_norm" "float32").withDefault .null,
      (Parameter.typed "norm_type" "float32").withDefault (.float 2.0),
      (Parameter.typed "scale_grad_by_freq" "boolean").withDefault (.bool false),
      (Parameter.typed "sparse" "boolean").withDefault (.bool false)] },
  { name := "torch.nn.modules.activation.ReLU"
    category := some "Activation"
    inputs := [.named "input"]
    attributes := [(Parameter.typed "inplace" "boolean").withDefault (.bool false)] },
  { name := "torch.nn.modules.activation.ReLU6"
    category := some "Activation"
    inputs := [.named "input"]
    attributes := [(Parameter.typed "min_val" "float32").withDefault (.float 0.0),
      (Parameter.typed "max_val" "float32").withDefault (.float 6.0),
      (Parameter.typed "inplace" "boolean").withDefault (.bool false)] },
  { name := "torch.nn.modules.activation.Sigmoid"
    category := some "Activation"
    inputs := [.named "input"] },
  { name := "torch.nn.modules.activation.Softmax"
    category := some "Activation"
    inputs := [.named "input"]
    attributes := [(Parameter.typed "dim" "int64").withDefault .null] },
  { name := "torch.nn.modules.pooling.MaxPool2d"
    category := some "Pool"
    inputs := [.named "input"]
    attributes := [.typed "kernel_size" "int64[]",
      (Parameter.typed "stride" "int64[]").withDefault .null,
      (Parameter.typed "padding" "int64[]").withDefault (.int 0),
      (Parameter.typed "dilation" "int64[]").withDefault (.int 1),
      (Parameter.typed "return_indices" "boolean").withDefault (.bool false),
      (Parameter.typed "ceil_mode" "boolean").withDefault (.bool false)] },
  { name := "torch.nn.modules.pooling.AdaptiveAvgPool2d"
    category := some "Pool"
    inputs := [.named "input"]
    attributes := [.typed "output_size" "int64[]"] },
  { name := "torch.nn.modules.dropout.Dropout"
    category := some "Dropout"
    inputs := [.named "input"]
    attributes := [(Parameter.typed "p" "float32").withDefault (.float 0.5),
      (Parameter.typed "inplace" "boolean").withDefault (.bool false)] },
  { name := "torch.nn.modules.flatten.Flatten"
    category := some "Shape"
    inputs := [.named "input"]
    attributes := [(Parameter.typed "start_dim" "int64").withDefault (.int 1),
      (Parameter.typed "end_dim" "int64").withDefault (.int (-1))] }]

/-- Functions on tensors. -/
def functionSchemas : List Schema := [
  { name := "torch.add:Tensor"
    inputs := [.typed "self" "Tensor", .typed "other" "Tensor"]
    attributes := [(Parameter.typed "alpha" "Scalar").withDefault (.int 1)]
    outputs := [.typed "result" "Tensor"] },
  { name := "torch.add:Scalar"
    inputs := [.typed "self" "Tensor"]
    attributes := [.typed "other" "Scalar",
      (Parameter.typed "alpha" "Scalar").withDefault (.int 1)]
    outputs := [.typed "result" "Tensor"] },
  { name := "torch.add_:Tensor"
    inputs := [.typed "self" "Tensor", .typed "other" "Tensor"]
    attributes := [(Parameter.typed "alpha" "Scalar").withDefault (.int 1)]
    outputs := [.typed "result" "Tensor"] },
  { name := "torch.mul:Tensor"
    inputs := [.typed "self" "Tensor", .typed "other" "Tensor"]
    outputs := [.typed "result" "Tensor"] },
  { name := "torch.matmul"
    inputs := [.typed "self" "Tensor", .typed "other" "Tensor"]
    outputs := [.typed "result" "Tensor"] },
  { name := "torch.addmm"
    category := some "Layer"
    inputs := [.typed "self" "Tensor", .typed "mat1" "Tensor", .typed "mat2" "Tensor"]
    attributes := [(Parameter.typed "beta" "Scalar").withDefault (.int 1),
      (Parameter.typed "alpha" "Scalar").withDefault (.int 1)]
    outputs := [.typed "result" "Tensor"] },
  { name := "torch.linear"
    category := some "Layer"
    inputs := [.typed "input" "Tensor", .typed "weight" "Tensor",
      (Parameter.typed "bias" "Tensor").asOptional]
    outputs := [.typed "result" "Tensor"] },
  { name := "torch.conv2d"
    category := some "Layer"
    inputs := [.typed "input" "Tensor", .typed "weight" "Tensor",
      (Parameter.typed "bias" "Tensor").asOptional]
    attributes := [(Parameter.typed "stride" "int64[]").withDefault (.int 1),
      (Parameter.typed "padding" "int64[]").withDefault (.int 0),
      (Parameter.typed "dilation" "int64[]").withDefault (.int 1),
      (Parameter.typed "groups" "int64").withDefault (.int 1)]
    outputs := [.typed "result" "Tensor"] },
  { name := "torch.conv3d"
    category := some "Layer"
    inputs := [.typed "input" "Tensor", .typed "weight" "Tensor",
      (Parameter.typed "bias" "Tensor").asOptional]
    attributes := [(Parameter.typed "stride" "int64[]").withDefault (.int 1),
      (Parameter.typed "padding" "int64[]").withDefault (.int 0),
      (Parameter.typed "dilation" "int64[]").withDefault (.int 1),
      (Parameter.typed "groups" "int64").withDefault (.int 1)]
    outputs := [.typed "result" "Tensor"] },
  { name := "torch.batch_norm"
    category := some "Normalization"
    inputs := [.typed "input" "Tensor", (Parameter.typed "weight" "Tensor").asOptional,
      (Parameter.typed "bias" "Tensor").asOptional,
      (Parameter.typed "running_mean" "Tensor").asOptional,
      (Parameter.typed "running_var" "Tensor").asOptional]
    attributes := [(Parameter.typed "training" "boolean").hidden,
      (Parameter.typed "momentum" "float64").withDefault (.float 0.1),
      (Parameter.typed "eps" "float64").withDefault (.float 1e-05),
      (Parameter.typed "cudnn_enabled" "boolean").hidden]
    outputs := [.typed "result" "Tensor"] },
  { name := "torch.layer_norm"
    category := some "Normalization"
    inputs := [.typed "input" "Tensor"]
    attributes := [.typed "normalized_shape" "int64[]",
      (Parameter.typed "weight" "Tensor").asOptional,
      (Parameter.typed "bias" "Tensor").asOptional,
      (Parameter.typed "eps" "float64").withDefault (.float 1e-05),
      (Parameter.typed "cudnn_enable" "boolean").hidden.withDefault (.bool true)]
    outputs := [.typed "result" "Tensor"] },
  { name := "torch.relu"
    category := some "Activation"
    inputs := [.typed "self" "Tensor"]
    outputs := [.typed "result" "Tensor"] },
  { name := "torch.relu_"
    category := some "Activation"
    inputs := [.typed "self" "Tensor"]
    outputs := [.typed "result" "Tensor"] },
  { name := "torch.hardtanh_"
    category := some "Activation"
    inputs := [.typed "self" "Tensor"]
    attributes := [(Parameter.typed "min_val" "Scalar").withDefault (.int (-1)),
      (Parameter.typed "max_val" "Scalar").withDefault (.int 1)]
    outputs := [.typed "result" "Tensor"] },
  { name := "torch.sigmoid"
    category := some "Activation"
    inputs := [.typed "self" "Tensor"]
    outputs := [.typed "result" "Tensor"] },
  { name := "torch.tanh"
    category := some "Activation"
    inputs := [.typed "self" "Tensor"]
    outputs := [.typed "result" "Tensor"] },
  { name := "torch.softmax"
    category := some "Activation"
    inputs := [.typed "self" "Tensor"]
    attributes := [.typed "dim" "int64",
      (Parameter.typed "dtype" "ScalarType").asOptional.withDefault .null]
    outputs := [.typed "result" "Tensor"] },
  { name := "torch.dropout"
    category := some "Dropout"
    inputs := [.typed "input" "Tensor"]
    attributes := [(Parameter.typed "p" "float64").withDefault (.float 0.5),
      (Parameter.typed "train" "boolean").hidden]
    outputs := [.typed "result" "Tensor"] },
  { name := "torch.max_pool2d"
    category := some "Pool"
    inputs := [.typed "self" "Tensor"]
    attributes := [.typed "kernel_size" "int64[]",
      (Parameter.typed "stride" "int64[]").withDefault (.array []),
      (Parameter.typed "padding" "int64[]").withDefault (.int 0),
      (Parameter.typed "dilation" "int64[]").withDefault (.int 1),
      (Parameter.typed "ceil_mode" "boolean").withDefault (.bool false)]
    outputs := [.typed "result" "Tensor"] },
  { name := "torch.avg_pool2d"
    category := some "Pool"
    inputs := [.typed "self" "Tensor"]
    attributes := [.typed "kernel_size" "int64[]",
      (Parameter.typed "stride" "int64[]").withDefault (.array []),
      (Parameter.typed "padding" "int64[]").withDefault (.int 0),
      (Parameter.typed "ceil_mode" "boolean").withDefault (.bool false),
      (Parameter.typed "count_include_pad" "boolean").withDefault (.bool true),
      (Parameter.typed "divisor_override" "int64").asOptional.withDefault .null]
    outputs := [.typed "result" "Tensor"] },
  { name := "torch.adaptive_avg_pool2d"
    category := some "Pool"
    inputs := [.typed "self" "Tensor"]
    attributes := [.typed "output_size" "int64[1]"]
    outputs := [.typed "result" "Tensor"] },
  { name := "torch.flatten"
    category := some "Shape"
    inputs := [.typed "self" "Tensor"]
    attributes := [(Parameter.typed "start_dim" "int64").withDefault (.int 0),
      (Parameter.typed "end_dim" "int64").withDefault (.int (-1))]
    outputs := [.typed "result" "Tensor"] },
  { name := "torch.view"
    category := some "Shape"
    inputs := [.typed "self" "Tensor"]
    attributes := [.typed "size" "int64[]"]
    outputs := [.typed "result" "Tensor"] },
  { name := "torch.reshape"
    category := some "Shape"
    inputs := [.typed "self" "Tensor"]
    attributes := [.typed "shape" "int64[]"]
    outputs := [.typed "result" "Tensor"] },
  { name := "torch.cat"
    category := some "Tensor"
    inputs := [.typed "tensors" "Tensor[]"]
    attributes := [(Parameter.typed "dim" "int64").withDefault (.int 0)]
    outputs := [.typed "result" "Tensor"] },
  { name := "torch.chunk"
    category := some "Tensor"
    inputs := [.typed "self" "Tensor"]
    attributes := [.typed "chunks" "int64", (Parameter.typed "dim" "int64").withDefault (.int 0)]
    outputs := [.typed "result" "Tensor[]"] },
  { name := "torch.mean:dim"
    inputs := [.typed "self" "Tensor"]
    attributes := [.typed "dim" "int64[]",
      (Parameter.typed "keepdim" "boolean").withDefault (.bool false),
      (Parameter.typed "dtype" "ScalarType").asOptional.withDefault .null]
    outputs := [.typed "result" "Tensor"] },
  { name := "torch.embedding"
    category := some "Transform"
    inputs := [.typed "weight" "Tensor", .typed "indices" "Tensor"]
    attributes := [(Parameter.typed "padding_idx" "int64").withDefault (.int (-1)),
      (Parameter.typed "scale_grad_by_freq" "boolean").withDefault (.bool false),
      (Parameter.typed "sparse" "boolean").withDefault (.bool false)]
    outputs := [.typed "result" "Tensor"] },
  { name := "torch.t"
    category := some "Shape"
    inputs := [.typed "self" "Tensor"]
    outputs := [.typed "result" "Tensor"] },
  { name := "torch.size:int"
    inputs := [.typed "self" "Tensor"]
    attributes := [.typed "dim" "int64"]
    outputs := [.typed "result" "int64"] },
  { name := "torch.ones"
    attributes := [.typed "size" "int64[]",
      (Parameter.typed "dtype" "ScalarType").asOptional.withDefault .null,
      (Parameter.typed "layout" "Layout").asOptional.withDefault .null,
      (Parameter.typed "device" "Device").asOptional.withDefault .null,
      (Parameter.typed "pin_memory" "boolean").asOptional.withDefault .null]
    outputs := [.typed "result" "Tensor"] },
  { name := "torch.zeros"
    attributes := [.typed "size" "int64[]",
      (Parameter.typed "dtype" "ScalarType").asOptional.withDefault .null,
      (Parameter.typed "layout" "Layout").asOptional.withDefault .null,
      (Parameter.typed "device" "Device").asOptional.withDefault .null,
      (Parameter.typed "pin_memory" "boolean").asOptional.withDefault .null]
    outputs := [.typed "result" "Tensor"] },
  { name := "torch.quantize_per_tensor"
    category := some "Quantization"
    inputs := [.typed "self" "Tensor"]
    attributes := [.typed "scale" "float64", .typed "zero_point" "int64",
      .typed "dtype" "ScalarType"]
    outputs := [.typed "result" "Tensor"] },
  { name := "torch.dequantize"
    category := some "Quantization"
    inputs := [.typed "self" "Tensor"]
    outputs := [.typed "result" "Tensor"] },
  { name := "ops.quantized.conv2d"
    category := some "Layer"
    inputs := [.typed "input" "Tensor", .typed "weight" "Tensor",
      (Parameter.typed "bias" "Tensor").asOptional]
    attributes := [.typed "output_scale" "float64", .typed "output_zero_point" "int64"]
    outputs := [.typed "result" "Tensor"] },
  { name := "ops.quantized.conv2d_relu"
    category := some "Layer"
    inputs := [.typed "input" "Tensor", .typed "weight" "Tensor",
      (Parameter.typed "bias" "Tensor").asOptional]
    attributes := [.typed "output_scale" "float64", .typed "output_zero_point" "int64"]
    outputs := [.typed "result" "Tensor"] },
  { name := "ops.quantized.linear"
    category := some "Layer"
    inputs := [.typed "input" "Tensor", .typed "weight" "Tensor",
      (Parameter.typed "bias" "Tensor").asOptional]
    attributes := [.typed "output_scale" "float64", .typed "output_zero_point" "int64"]
    outputs := [.typed "result" "Tensor"] },
  { name := "ops.quantized.add_relu"
    inputs := [.typed "qa" "Tensor", .typed "qb" "Tensor"]
    attributes := [.typed "scale" "float64", .typed "zero_point" "int64"]
    outputs := [.typed "result" "Tensor"] },
  { name := "ops.quantized.cat"
    inputs := [.typed "qx" "Tensor[]"]
    attributes := [.typed "dim" "int64", (Parameter.typed "scale" "float64").asOptional,
      (Parameter.typed "zero_point" "int64").asOptional]
    outputs := [.typed "result" "Tensor"] }]

def Catalog.standard : Catalog := .ofList (moduleSchemas ++ functionSchemas)

end ModelGraph.Operator
