import ModelGraph.Number.Word

/-!
# Opcodes

The instructions of pickles, protocols 0 to 5. Instructions that differ only in the width of a length
or a number are one constructor with that width.
-/

namespace ModelGraph.Pickle

inductive Opcode where
  | protocol | frame | stop
  | mark | pop | popMark | duplicate
  | none | bool (value : Bool)
  /-- Integers and floats written as lines of text. -/
  | intLine | longLine | floatLine
  | unsigned (width : Nat) | int32 | long (width : Nat) | double
  | stringLine | latin1 (width : Nat) | unicodeLine | utf8 (width : Nat)
  | bytes (width : Nat) | readOnly
  | emptyList | emptyDict | list | tuple (count : Nat)
  | append | appends | dict | setItem | setItems
  | putLine | put (width : Nat) | memoize | getLine | fetch (width : Nat)
  | global | stackGlobal | reduce | newObjectWithKeywords | instantiate | object | build
  | persistentLine | persistent
  deriving DecidableEq, Inhabited

namespace Opcode

/-- The code of every instruction. -/
def table : List (UInt8 × Opcode) := [
  (0x80, .protocol), (0x95, .frame), (0x2e, .stop),
  (0x28, .mark), (0x30, .pop), (0x31, .popMark), (0x32, .duplicate),
  (0x4e, .none), (0x88, .bool true), (0x89, .bool false),
  (0x49, .intLine), (0x4c, .longLine), (0x46, .floatLine),
  (0x4a, .int32), (0x4b, .unsigned 1), (0x4d, .unsigned 2), (0x8a, .long 1), (0x8b, .long 4),
  (0x47, .double),
  (0x53, .stringLine), (0x54, .latin1 4), (0x55, .latin1 1),
  (0x56, .unicodeLine), (0x8c, .utf8 1), (0x58, .utf8 4), (0x8d, .utf8 8),
  (0x43, .bytes 1), (0x42, .bytes 4), (0x8e, .bytes 8), (0x96, .bytes 8), (0x98, .readOnly),
  (0x5d, .emptyList), (0x29, .emptyList), (0x8f, .emptyList), (0x7d, .emptyDict),
  (0x6c, .list), (0x74, .list), (0x91, .list),
  (0x85, .tuple 1), (0x86, .tuple 2), (0x87, .tuple 3),
  (0x61, .append), (0x65, .appends), (0x90, .appends),
  (0x64, .dict), (0x73, .setItem), (0x75, .setItems),
  (0x70, .putLine), (0x71, .put 1), (0x72, .put 4), (0x94, .memoize),
  (0x67, .getLine), (0x68, .fetch 1), (0x6a, .fetch 4),
  (0x63, .global), (0x93, .stackGlobal), (0x52, .reduce), (0x81, .reduce),
  (0x92, .newObjectWithKeywords), (0x69, .instantiate), (0x6f, .object), (0x62, .build),
  (0x50, .persistentLine), (0x51, .persistent)]

/-- The instruction of a byte. -/
def ofByte? (byte : UInt8) : Option Opcode := table.lookup byte

end Opcode

end ModelGraph.Pickle
