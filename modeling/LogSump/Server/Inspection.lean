/-
  LogSump.Server.Inspection — `_decode` of `admin.py`, which turns the reply of a Redis command
  into what the endpoint answers with.

  A set is returned as it is, with the byte strings of its members. The keys of a dictionary are
  decoded with replacement characters, so two keys may become one, and then the dictionary has an
  entry less.

  - `Key.decode_eq_iff`: which keys become one.
  - `decode_iff`: the replies whose decoding keeps their shape and has no byte string left.
  - `a_set_keeps_its_bytes_and_a_field_is_lost`.
-/

import LogSump.Foundation.Dict
import LogSump.Python.Codec

namespace LogSump.Server

open Python Foundation

/-! ## Replies -/

mutual

/-- A value that can be a dictionary's key or a set's member. -/
inductive Key where
  | bytes (bytes : List UInt8)
  | str (text : String)
  | int (n : Int)
  | none
  | tuple (items : Keys)

inductive Keys where
  | nil
  | cons (key : Key) (keys : Keys)

end

deriving instance DecidableEq for Key, Keys

mutual

/-- What redis-py returns. -/
inductive Reply where
  | bytes (bytes : List UInt8)
  | str (text : String)
  | int (n : Int)
  | none
  | list (items : Items)
  | tuple (items : Items)
  | set (members : List Key)
  | dict (entries : Entries)

inductive Items where
  | nil
  | cons (item : Reply) (items : Items)

/-- In the order of insertion. -/
inductive Entries where
  | nil
  | cons (key : Key) (value : Reply) (entries : Entries)

end

namespace Entries

def keys : Entries → List Key
  | nil => []
  | cons key _ entries => key :: entries.keys

def ofList : List (Key × Reply) → Entries
  | [] => nil
  | e :: entries => cons e.1 e.2 (ofList entries)

end Entries

/-! ## Decoding -/

def decodeBytes (bytes : List UInt8) : String := String.ofList (Codec.decode bytes)

mutual

/-- `_decode` of a key. -/
def Key.decode : Key → Key
  | .bytes bytes => .str (decodeBytes bytes)
  | .tuple items => .tuple items.decode
  | key => key

def Keys.decode : Keys → Keys
  | .nil => .nil
  | .cons key keys => .cons key.decode keys.decode

end

mutual

/-- `_decode`. -/
def Reply.decode : Reply → Reply
  | .bytes bytes => .str (decodeBytes bytes)
  | .list items => .list items.decode
  | .tuple items => .tuple items.decode
  | .dict entries => .dict (Entries.ofList (Dict.ofItems entries.decode))
  | value => value

def Items.decode : Items → Items
  | .nil => .nil
  | .cons item items => .cons item.decode items.decode

/-- The pairs that `_decode` fills its dictionary with. -/
def Entries.decode : Entries → List (Key × Reply)
  | .nil => []
  | .cons key value entries => (key.decode, value.decode) :: entries.decode

end

/-! ## What is expected of it -/

mutual

/-- No byte string is left. -/
def Key.NoBytes : Key → Prop
  | .bytes _ => False
  | .tuple items => items.NoBytes
  | _ => True

def Keys.NoBytes : Keys → Prop
  | .nil => True
  | .cons key keys => key.NoBytes ∧ keys.NoBytes

end

mutual

/-- No byte string is left, at any depth. -/
def Reply.NoBytes : Reply → Prop
  | .bytes _ => False
  | .list items => items.NoBytes
  | .tuple items => items.NoBytes
  | .set members => ∀ key ∈ members, key.NoBytes
  | .dict entries => entries.NoBytes
  | _ => True

def Items.NoBytes : Items → Prop
  | .nil => True
  | .cons item items => item.NoBytes ∧ items.NoBytes

def Entries.NoBytes : Entries → Prop
  | .nil => True
  | .cons key value entries => key.NoBytes ∧ value.NoBytes ∧ entries.NoBytes

end

mutual

/-- The same constructors, where a text may stand for a byte string. -/
def Key.SameShape : Key → Key → Prop
  | .bytes _, .bytes _ => True
  | .bytes _, .str _ => True
  | .str _, .str _ => True
  | .int _, .int _ => True
  | .none, .none => True
  | .tuple items, .tuple items' => items.SameShape items'
  | _, _ => False

def Keys.SameShape : Keys → Keys → Prop
  | .nil, .nil => True
  | .cons key keys, .cons key' keys' => key.SameShape key' ∧ keys.SameShape keys'
  | _, _ => False

end

mutual

/-- The same constructors at every depth, where a text may stand for a byte string, and as many
    items, members and entries. -/
def Reply.SameShape : Reply → Reply → Prop
  | .bytes _, .bytes _ => True
  | .bytes _, .str _ => True
  | .str _, .str _ => True
  | .int _, .int _ => True
  | .none, .none => True
  | .list items, .list items' => items.SameShape items'
  | .tuple items, .tuple items' => items.SameShape items'
  | .set members, .set members' => members.length = members'.length
  | .dict entries, .dict entries' => entries.SameShape entries'
  | _, _ => False

def Items.SameShape : Items → Items → Prop
  | .nil, .nil => True
  | .cons item items, .cons item' items' => item.SameShape item' ∧ items.SameShape items'
  | _, _ => False

def Entries.SameShape : Entries → Entries → Prop
  | .nil, .nil => True
  | .cons key value entries, .cons key' value' entries' =>
    key.SameShape key' ∧ value.SameShape value' ∧ entries.SameShape entries'
  | _, _ => False

end

/-! ## When it does -/

mutual

/-- Two keys with the same text: byte strings that are decoded to one text, or the text itself. -/
def Key.SameText : Key → Key → Prop
  | .bytes bytes, .bytes bytes' => decodeBytes bytes = decodeBytes bytes'
  | .bytes bytes, .str text => decodeBytes bytes = text
  | .str text, .bytes bytes => text = decodeBytes bytes
  | .str text, .str text' => text = text'
  | .int n, .int n' => n = n'
  | .none, .none => True
  | .tuple items, .tuple items' => items.SameText items'
  | _, _ => False

def Keys.SameText : Keys → Keys → Prop
  | .nil, .nil => True
  | .cons key keys, .cons key' keys' => key.SameText key' ∧ keys.SameText keys'
  | _, _ => False

end

mutual

/-- No set has a byte string in it, and no dictionary two keys with the same text. -/
def Reply.Decodable : Reply → Prop
  | .list items => items.Decodable
  | .tuple items => items.Decodable
  | .set members => ∀ key ∈ members, key.NoBytes
  | .dict entries => entries.keys.Pairwise (fun key key' => ¬ key.SameText key') ∧ entries.Decodable
  | _ => True

def Items.Decodable : Items → Prop
  | .nil => True
  | .cons item items => item.Decodable ∧ items.Decodable

def Entries.Decodable : Entries → Prop
  | .nil => True
  | .cons _ value entries => value.Decodable ∧ entries.Decodable

end

/-! ## Keys -/

mutual

theorem Key.decode_eq_iff : (key key' : Key) → (key.decode = key'.decode ↔ key.SameText key')
  | .tuple items, .tuple items' => by
    simpa only [Key.decode, Key.SameText, Key.tuple.injEq] using items.decode_eq_iff items'
  | .bytes _, key' => by cases key' <;> simp [Key.decode, Key.SameText]
  | .str _, key' => by cases key' <;> simp [Key.decode, Key.SameText]
  | .int _, key' => by cases key' <;> simp [Key.decode, Key.SameText]
  | .none, key' => by cases key' <;> simp [Key.decode, Key.SameText]
  | .tuple _, .bytes _ => by simp [Key.decode, Key.SameText]
  | .tuple _, .str _ => by simp [Key.decode, Key.SameText]
  | .tuple _, .int _ => by simp [Key.decode, Key.SameText]
  | .tuple _, .none => by simp [Key.decode, Key.SameText]

theorem Keys.decode_eq_iff : (keys keys' : Keys) → (keys.decode = keys'.decode ↔ keys.SameText keys')
  | .nil, .nil => by simp only [Keys.decode, Keys.SameText]
  | .nil, .cons _ _ => by simp only [Keys.decode, Keys.SameText, reduceCtorEq]
  | .cons _ _, .nil => by simp only [Keys.decode, Keys.SameText, reduceCtorEq]
  | .cons key keys, .cons key' keys' => by
    simp only [Keys.decode, Keys.SameText, Keys.cons.injEq, key.decode_eq_iff key', keys.decode_eq_iff keys']

end

mutual

theorem Key.decode_keeps : (key : Key) → key.decode.NoBytes ∧ key.SameShape key.decode
  | .tuple items => by simpa only [Key.decode, Key.NoBytes, Key.SameShape] using items.decode_keeps
  | .bytes _ => by simp only [Key.decode, Key.NoBytes, Key.SameShape, and_self]
  | .str _ => by simp only [Key.decode, Key.NoBytes, Key.SameShape, and_self]
  | .int _ => by simp only [Key.decode, Key.NoBytes, Key.SameShape, and_self]
  | .none => by simp only [Key.decode, Key.NoBytes, Key.SameShape, and_self]

theorem Keys.decode_keeps : (keys : Keys) → keys.decode.NoBytes ∧ keys.SameShape keys.decode
  | .nil => by simp only [Keys.decode, Keys.NoBytes, Keys.SameShape, and_self]
  | .cons key keys => by
    simp only [Keys.decode, Keys.NoBytes, Keys.SameShape]
    exact ⟨⟨key.decode_keeps.1, keys.decode_keeps.1⟩, key.decode_keeps.2, keys.decode_keeps.2⟩

end

theorem Entries.keys_decode : (entries : Entries) → Dict.keys entries.decode = entries.keys.map Key.decode
  | .nil => rfl
  | .cons key _ entries => congrArg (key.decode :: ·) entries.keys_decode

/-- The keys stay different. -/
theorem Entries.nodup_decode (entries : Entries) :
    (Dict.keys entries.decode).Nodup ↔ entries.keys.Pairwise fun key key' => ¬ key.SameText key' := by
  rw [Entries.keys_decode, List.Nodup, List.pairwise_map]
  simp only [ne_eq, Key.decode_eq_iff]

/-! ## Entries -/

theorem Entries.SameShape.length_eq : {entries : Entries} → {items : List (Key × Reply)} →
    entries.SameShape (Entries.ofList items) → entries.keys.length = items.length
  | .nil, [], _ => rfl
  | .cons _ _ _, _ :: _, h => congrArg (· + 1) (Entries.SameShape.length_eq h.2.2)

/-- A dictionary in which two keys have become one is shorter. -/
theorem Entries.nodup_of_sameShape {entries : Entries}
    (h : entries.SameShape (Entries.ofList (Dict.ofItems entries.decode))) : (Dict.keys entries.decode).Nodup := by
  apply Dict.length_ofItems_iff.mp
  have hlength := congrArg List.length entries.keys_decode
  rw [Dict.keys, List.length_map, List.length_map] at hlength
  rw [← h.length_eq, hlength]

/-! ## Replies -/

mutual

theorem Reply.decode_spec : (reply : Reply) → (reply.decode.NoBytes ∧ reply.SameShape reply.decode ↔ reply.Decodable)
  | .bytes _ => by simp only [Reply.decode, Reply.NoBytes, Reply.SameShape, Reply.Decodable, and_self]
  | .str _ => by simp only [Reply.decode, Reply.NoBytes, Reply.SameShape, Reply.Decodable, and_self]
  | .int _ => by simp only [Reply.decode, Reply.NoBytes, Reply.SameShape, Reply.Decodable, and_self]
  | .none => by simp only [Reply.decode, Reply.NoBytes, Reply.SameShape, Reply.Decodable, and_self]
  | .list items => by simpa only [Reply.decode, Reply.NoBytes, Reply.SameShape, Reply.Decodable] using items.decode_spec
  | .tuple items => by simpa only [Reply.decode, Reply.NoBytes, Reply.SameShape, Reply.Decodable] using items.decode_spec
  | .set members => by simp only [Reply.decode, Reply.NoBytes, Reply.SameShape, Reply.Decodable, and_true]
  | .dict entries => by
    have hentries := entries.decode_spec
    simp only [Reply.decode, Reply.NoBytes, Reply.SameShape, Reply.Decodable, ← entries.nodup_decode]
    constructor
    · intro h
      have hnodup := Entries.nodup_of_sameShape h.2
      rw [Dict.ofItems_eq_self hnodup] at h
      exact ⟨hnodup, hentries.mp h⟩
    · intro h
      rw [Dict.ofItems_eq_self h.1]
      exact hentries.mpr h.2

theorem Items.decode_spec : (items : Items) → (items.decode.NoBytes ∧ items.SameShape items.decode ↔ items.Decodable)
  | .nil => by simp only [Items.decode, Items.NoBytes, Items.SameShape, Items.Decodable, and_self]
  | .cons item items => by
    simp only [Items.decode, Items.NoBytes, Items.SameShape, Items.Decodable, ← item.decode_spec, ← items.decode_spec]
    exact and_and_and_comm

/-- Of the pairs, before the dictionary is filled. -/
theorem Entries.decode_spec : (entries : Entries) →
    ((Entries.ofList entries.decode).NoBytes ∧ entries.SameShape (Entries.ofList entries.decode) ↔ entries.Decodable)
  | .nil => by simp only [Entries.decode, Entries.ofList, Entries.NoBytes, Entries.SameShape, Entries.Decodable, and_self]
  | .cons key value entries => by
    simp only [Entries.decode, Entries.ofList, Entries.NoBytes, Entries.SameShape, Entries.Decodable, key.decode_keeps,
      true_and, ← value.decode_spec, ← entries.decode_spec]
    exact and_and_and_comm

end

/-- Decoding a reply keeps its shape and leaves no byte string in it, exactly where no set of it has
    a byte string in it, at any depth, and no dictionary of it two keys with the same text. -/
theorem decode_iff (reply : Reply) : reply.decode.NoBytes ∧ reply.SameShape reply.decode ↔ reply.Decodable :=
  reply.decode_spec

/-- `SMEMBERS` of a set of one. -/
def oneMember : Reply := .set [.bytes [0x61]]

/-- `HGETALL` of two fields, of which neither is UTF-8. -/
def twoFields : Reply := .dict (.cons (.bytes [0xFE]) (.bytes [0x31]) (.cons (.bytes [0xFF]) (.bytes [0x32]) .nil))

theorem a_set_keeps_its_bytes_and_a_field_is_lost :
    oneMember.decode = oneMember ∧ ¬ oneMember.decode.NoBytes ∧
      twoFields.decode = .dict (.cons (.str "\uFFFD") (.str "2") .nil) ∧ ¬ twoFields.SameShape twoFields.decode := by
  have hfirst : decodeBytes [0xFE] = "\uFFFD" := by decide +kernel
  have hsecond : decodeBytes [0xFF] = "\uFFFD" := by decide +kernel
  have hvalue : decodeBytes [0x32] = "2" := by decide +kernel
  have hfields : twoFields.decode = .dict (.cons (.str "\uFFFD") (.str "2") .nil) := by
    simp [twoFields, Reply.decode, Entries.decode, Key.decode, hfirst, hsecond, hvalue, Dict.ofItems, Dict.setItem, Dict.keys,
      Entries.ofList]
  refine ⟨rfl, ?_, hfields, ?_⟩
  · intro h
    exact h (.bytes [0x61]) List.mem_cons_self
  · intro h
    rw [hfields] at h
    exact h.2.2

end LogSump.Server
