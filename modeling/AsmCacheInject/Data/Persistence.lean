import Mathlib

namespace AsmCacheInject.Data.Persistence

/-! A map kept on a device with a volatile cache.  A write is visible at once
and durable with the next sync; a crash leaves each key, on its own, a value it
has had since the last sync. -/

variable {Key Value : Type*}

inductive Effect (Key Value : Type*)
  | write (key : Key) (value : Value)
  | sync

/-- The map a trace of effects leaves while the device is up. -/
def settle [DecidableEq Key] (initial : Key → Value) :
    List (Effect Key Value) → Key → Value
  | [] => initial
  | .write key value :: rest => settle (Function.update initial key value) rest
  | .sync :: rest => settle initial rest

variable [DecidableEq Key] {initial : Key → Value}
variable {trace first second : List (Effect Key Value)} {key : Key} {value : Value}

/-- A crash after `trace` may leave `value` under `key`. -/
def Survives (initial : Key → Value) (trace : List (Effect Key Value)) (key : Key)
    (value : Value) : Prop :=
  ∃ past unsynced, trace = past ++ unsynced ∧ .sync ∉ unsynced ∧
    settle initial past key = value

theorem settle_append (initial : Key → Value)
    (first second : List (Effect Key Value)) :
    settle initial (first ++ second) = settle (settle initial first) second := by
  induction first generalizing initial with
  | nil => rfl
  | cons effect rest ih =>
      cases effect with
      | write key value => exact ih _
      | sync => exact ih initial

theorem settle_mem (initial : Key → Value) (trace : List (Effect Key Value))
    (key : Key) :
    settle initial trace key = initial key ∨
      .write key (settle initial trace key) ∈ trace := by
  induction trace generalizing initial with
  | nil => exact .inl rfl
  | cons effect rest ih =>
      cases effect with
      | sync =>
          rcases ih initial with hsame | hmem
          · exact .inl hsame
          · exact .inr (List.mem_cons_of_mem _ hmem)
      | write written value =>
          rcases ih (Function.update initial written value) with hsame | hmem
          · by_cases heq : key = written
            · subst heq
              right
              rw [settle, hsame, Function.update_self]
              exact List.mem_cons_self
            · left
              rw [settle, hsame, Function.update_of_ne heq]
          · exact .inr (List.mem_cons_of_mem _ hmem)

theorem Survives.mem (hsurvives : Survives initial trace key value) :
    value = initial key ∨ .write key value ∈ trace := by
  obtain ⟨past, unsynced, rfl, _, rfl⟩ := hsurvives
  rcases settle_mem initial past key with hsame | hmem
  · exact .inl hsame
  · exact .inr (List.mem_append_left _ hmem)

/-- What a sync has made durable is the state a later crash starts from. -/
theorem Survives.after_sync
    (hsurvives : Survives initial (first ++ [.sync] ++ second) key value) :
    Survives (settle initial first) second key value := by
  obtain ⟨past, unsynced, hsplit, hsilent, rfl⟩ := hsurvives
  have hsettled : settle initial first = settle initial (first ++ [.sync]) := by
    rw [settle_append]
    rfl
  rw [hsettled]
  rcases List.append_eq_append_iff.mp hsplit with
    ⟨middle, hpast, hsecond⟩ | ⟨middle, hfirst, hunsynced⟩
  · refine ⟨middle, unsynced, hsecond, hsilent, ?_⟩
    rw [hpast]
    exact congrFun (settle_append initial _ middle).symm key
  · rcases List.eq_nil_or_concat middle with hnil | ⟨rest, last, hconcat⟩
    · subst hnil
      rw [List.append_nil] at hfirst
      rw [List.nil_append] at hunsynced
      exact ⟨[], second, rfl, hunsynced ▸ hsilent, by rw [hfirst]; rfl⟩
    · rw [List.concat_eq_append] at hconcat
      subst hconcat
      rw [← List.append_assoc] at hfirst
      obtain ⟨_, hlast⟩ := List.append_inj' hfirst rfl
      cases hlast
      rw [hunsynced] at hsilent
      simp at hsilent

end AsmCacheInject.Data.Persistence
