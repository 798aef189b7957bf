import Mathlib.Data.Finset.Basic
import Mathlib.Logic.Function.Basic

namespace Lib.Serial

-- What one transaction reads and writes, in order, with the values that it read.
inductive Access (κ ν : Type) where
  | Read (key : κ) (value : ν)
  | Write (key : κ) (value : ν)

abbrev Script (κ ν : Type) := List (Access κ ν)

variable {κ ν : Type} [DecidableEq κ]

def after (store : κ → ν) : Script κ ν → κ → ν
  | [] => store
  | .Read _ _ :: script => after store script
  | .Write key value :: script => after (Function.update store key value) script

def Sees (store : κ → ν) : Script κ ν → Prop
  | [] => True
  | .Read key value :: script => value = store key ∧ Sees store script
  | .Write key value :: script => Sees (Function.update store key value) script

def written : Script κ ν → Finset κ
  | [] => ∅
  | .Read _ _ :: script => written script
  | .Write key _ :: script => insert key (written script)

def asked : Script κ ν → Finset κ
  | [] => ∅
  | .Read key _ :: script => insert key (asked script)
  | .Write key _ :: script => (asked script).erase key

def InTurn (store : κ → ν) : List (Script κ ν) → Prop
  | [] => True
  | script :: scripts => Sees store script ∧ InTurn (after store script) scripts

def replay (store : κ → ν) (scripts : List (Script κ ν)) : κ → ν := scripts.foldl after store

variable {store store' : κ → ν} {script : Script κ ν} {key : κ} {value : ν}

theorem sees_append {script' : Script κ ν} :
    Sees store (script ++ script') ↔ Sees store script ∧ Sees (after store script) script' := by
  induction script generalizing store with
  | nil => exact (true_and _).to_iff.symm
  | cons access script ih =>
      cases access with
      | Read key value => exact (and_congr_right fun _ => ih).trans (and_assoc).symm
      | Write key value => exact ih

theorem asked_append (script script' : Script κ ν) : asked script ⊆ asked (script ++ script') := by
  induction script with
  | nil => exact Finset.empty_subset _
  | cons access script ih =>
      cases access with
      | Read key value => exact Finset.insert_subset_insert key ih
      | Write key value => exact Finset.erase_subset_erase key ih

theorem after_of_notMem (h : key ∉ written script) : after store script key = store key := by
  induction script generalizing store with
  | nil => rfl
  | cons access script ih =>
      cases access with
      | Read key' value => exact ih h
      | Write key' value =>
          rw [written, Finset.mem_insert, not_or] at h
          exact (ih h.2).trans (Function.update_of_ne h.1 _ _)

theorem Sees.congr (h : Sees store script) (hsame : ∀ key ∈ asked script, store' key = store key) :
    Sees store' script := by
  induction script generalizing store store' with
  | nil => trivial
  | cons access script ih =>
      cases access with
      | Read key value =>
          refine ⟨?_, ih h.2 fun k hk => hsame k (Finset.mem_insert_of_mem hk)⟩
          rw [h.1, hsame key (Finset.mem_insert_self _ _)]
      | Write key value =>
          refine ih h fun k hk => ?_
          by_cases hkey : k = key
          · rw [hkey, Function.update_self, Function.update_self]
          · rw [Function.update_of_ne hkey, Function.update_of_ne hkey]
            exact hsame k (Finset.mem_erase.mpr ⟨hkey, hk⟩)

-- A script that writes none of the keys another asks for leaves what the other sees.
theorem Sees.after {script' : Script κ ν} (h : Sees store script) (hapart : Disjoint (written script')
    (asked script)) :
    Sees (Serial.after store script') script :=
  h.congr fun _ hkey => after_of_notMem (Finset.disjoint_right.mp hapart hkey)

theorem replay_snoc (store : κ → ν) (scripts : List (Script κ ν)) (script : Script κ ν) :
    replay store (scripts ++ [script]) = Serial.after (replay store scripts) script := by
  rw [replay, List.foldl_append]
  rfl

theorem inTurn_snoc {scripts : List (Script κ ν)} :
    InTurn store (scripts ++ [script]) ↔ InTurn store scripts ∧ Sees (replay store scripts) script := by
  induction scripts generalizing store with
  | nil => exact and_comm
  | cons first scripts ih => exact (and_congr_right fun _ => ih).trans (and_assoc).symm

end Lib.Serial
