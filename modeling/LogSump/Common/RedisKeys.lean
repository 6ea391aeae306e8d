/-
  LogSump.Common.RedisKeys — every Redis key format of log-sump.

  - `streamKey_inj`: a stream's key determines its daemon and kind, whatever colons the
    daemon's id contains.
  - `streamKey_ne_ingestList`, `streamKey_ne_authKey`: streams do not share a key with the
    ingest list or an API key's set.
  - `keys_never_clash`: no two of all keys are the same.
-/

import LogSump.Common.Schema

namespace LogSump.Common

def ingestList : String := "logsump:ingest:v1"

def streamKey (dockerHost : String) (kind : Kind) : String :=
  "logsump:stream:" ++ dockerHost ++ ":" ++ kind.value

def daemonStatusKey (dockerHost : String) : String := "logsump:daemon:" ++ dockerHost ++ ":status"

/-- `sha256` gives the digest's hexadecimal digits. -/
def authKey (sha256 : String → String) (apiKey : String) : String := "logsump:auth:" ++ sha256 apiKey

/-! ## Keys as characters -/

theorem toList_four (a b c d : String) :
    (a ++ b ++ c ++ d).toList = a.toList ++ (b.toList ++ (c.toList ++ d.toList)) := by
  simp only [String.toList_append, List.append_assoc]

theorem streamKey_toList (h : String) (k : Kind) :
    (streamKey h k).toList = "logsump:stream:".toList ++ (h.toList ++ (":".toList ++ k.value.toList)) :=
  toList_four _ _ _ _

theorem value_last (k : Kind) (cs : List Char) :
    (cs ++ (":".toList ++ k.value.toList)).getLast? = some (match k with | .log => 'g' | .metric => 'c') := by
  rw [List.getLast?_append, List.getLast?_append]
  cases k <;> rfl

theorem streamKey_inj {h₁ h₂ : String} {k₁ k₂ : Kind} (h : streamKey h₁ k₁ = streamKey h₂ k₂) :
    h₁ = h₂ ∧ k₁ = k₂ := by
  have hl := congrArg String.toList h
  rw [streamKey_toList, streamKey_toList, List.append_cancel_left_eq] at hl
  -- the keys of the two kinds end in different letters
  have hlast := congrArg List.getLast? hl
  rw [value_last, value_last] at hlast
  have hk : k₁ = k₂ := by cases k₁ <;> cases k₂ <;> first | rfl | cases hlast
  subst hk
  exact ⟨String.toList_inj.mp (List.append_cancel_right hl), rfl⟩

theorem daemonStatusKey_toList (h : String) :
    (daemonStatusKey h).toList = "logsump:daemon:".toList ++ (h.toList ++ ":status".toList) := by
  rw [daemonStatusKey, String.toList_append, String.toList_append, List.append_assoc]

theorem authKey_toList (sha256 : String → String) (a : String) :
    (authKey sha256 a).toList = "logsump:auth:".toList ++ (sha256 a).toList := String.toList_append

theorem daemonStatusKey_injective : Function.Injective daemonStatusKey := by
  intro h₁ h₂ h
  have hl := congrArg String.toList h
  rw [daemonStatusKey_toList, daemonStatusKey_toList, List.append_cancel_left_eq] at hl
  exact String.toList_inj.mp (List.append_cancel_right hl)

/-! ## The letter after `logsump:` -/

/-- It tells the four formats apart. -/
def eighth (key : String) : Option Char := key.toList[8]?

theorem streamKey_eighth (h : String) (k : Kind) : eighth (streamKey h k) = some 's' := by
  rw [eighth, streamKey_toList]
  rfl

theorem daemonStatusKey_eighth (h : String) : eighth (daemonStatusKey h) = some 'd' := by
  rw [eighth, daemonStatusKey_toList]
  rfl

theorem authKey_eighth (sha256 : String → String) (a : String) : eighth (authKey sha256 a) = some 'a' := by
  rw [eighth, authKey_toList]
  rfl

theorem ingestList_eighth : eighth ingestList = some 'i' := by decide

theorem ne_of_eighth {key key' : String} {c c' : Char} (h : eighth key = some c) (h' : eighth key' = some c')
    (hc : c ≠ c') : key ≠ key' := by
  intro he
  rw [he, h'] at h
  exact hc (Option.some.inj h).symm

theorem streamKey_ne_ingestList (h : String) (k : Kind) : streamKey h k ≠ ingestList :=
  ne_of_eighth (streamKey_eighth h k) ingestList_eighth (by decide)

theorem streamKey_ne_authKey (h : String) (k : Kind) (sha256 : String → String) (a : String) :
    streamKey h k ≠ authKey sha256 a :=
  ne_of_eighth (streamKey_eighth h k) (authKey_eighth sha256 a) (by decide)

/-- A stream's key determines its daemon and kind, a status key its daemon, and keys of two of the
    four formats differ, whatever the digest of an API key is. -/
theorem keys_never_clash (sha256 : String → String) :
    (∀ h₁ h₂ k₁ k₂, streamKey h₁ k₁ = streamKey h₂ k₂ ↔ h₁ = h₂ ∧ k₁ = k₂) ∧ Function.Injective daemonStatusKey ∧
      ∀ h h' a k, [streamKey h k, daemonStatusKey h', authKey sha256 a, ingestList].Nodup := by
  refine ⟨?_, daemonStatusKey_injective, ?_⟩
  · intro h₁ h₂ k₁ k₂
    refine ⟨streamKey_inj, ?_⟩
    intro h
    rw [h.1, h.2]
  · intro h h' a k
    have hs := streamKey_eighth h k
    have hd := daemonStatusKey_eighth h'
    have ha := authKey_eighth sha256 a
    simp only [List.nodup_cons, List.mem_cons, List.not_mem_nil, or_false, not_or, not_false_iff, List.nodup_nil, and_true]
    refine ⟨⟨ne_of_eighth hs hd ?_, streamKey_ne_authKey h k sha256 a, streamKey_ne_ingestList h k⟩,
      ⟨ne_of_eighth hd ha ?_, ne_of_eighth hd ingestList_eighth ?_⟩, ne_of_eighth ha ingestList_eighth ?_⟩ <;> decide

end LogSump.Common
