import ModelGraph.Weights.Layer

/-!
# Finding weights

A saved object may hold its weights some keys deep. They are looked for under the object's only key
and under customary ones; several independent sets of weights may stand side by side.
-/

namespace ModelGraph

/-- A named set of layers. The name tells apart the sets that are found side by side. -/
structure WeightSet where
  name : String
  layers : List Layer
  deriving DecidableEq, Inhabited

/-- Keys that weights are saved under; the empty one stands for the object itself. -/
def weightKeys : List String :=
  ["state_dict", "state", "model_state", "model", "model_state_dict", "model_dict", "net_dict",
    "params", "generator", "discriminator", "g_state", "network", "net", "netG", "net_states",
    "state_dict_stylepredictor", "state_dict_ghiasi", ""]

/-- Keys that a module tree is saved under. -/
def moduleKeys : List String := ["", "model", "net"]

namespace Heap

/-- The object under a key; the empty key stands for the root itself. -/
def keyed? (h : Heap) (root : Value) (key : String) : Option Value :=
  if key.isEmpty then some root else (h.item? root (.str key)).filter (!·.isNone)

/-- The keys to look under. -/
def candidateKeys (h : Heap) (root : Value) : List String :=
  match h.entries? root with
  | some [(key, _)] => key.keyName?.toList ++ weightKeys
  | _ => weightKeys

/-- The weights that an object holds: its own layers, or more than one set under its keys. -/
def weightsAt? (h : Heap) (v : Value) : Option (List WeightSet) :=
  match h.layers? v with
  | some layers => some [⟨"", layers⟩]
  | none =>
    let sets := ((h.entries? v).getD []).filterMap fun (key, value) => do
      return ⟨← key.keyName?, ← h.layers? value⟩
    if sets.length > 1 then some sets else none

/-- The weights of a saved object. -/
def weights? (h : Heap) (root : Value) : Option (List WeightSet) :=
  (h.candidateKeys root).findSome? fun key => (h.keyed? root key).bind h.weightsAt?

/-- The module tree of a saved object: the first of a few candidates that has submodules. -/
def moduleTree? (h : Heap) (root : Value) : Option Value :=
  moduleKeys.findSome? fun key =>
    (h.keyed? root key).filter fun v => (h.attribute? v "_modules").any (!·.isNone)

end Heap

end ModelGraph
