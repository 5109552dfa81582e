import Mathlib.Data.Finset.Card
import Mathlib.Data.List.Induction

/-!
# First come, first served

A store with room for `capacity` keys takes each key in at its first request, as long as it has
room, and never gives a place back.  After any requests it holds the first `capacity` distinct ones.
-/

namespace FirstCome

variable {Key : Type*} [DecidableEq Key]

/-- A request: a key that is not held yet is taken in if there is room. -/
def takeIn (capacity : ℕ) (keys : Finset Key) (key : Key) : Finset Key :=
  if key ∈ keys ∨ keys.card < capacity then insert key keys else keys

theorem eraseDups_concat (requests : List Key) (key : Key) :
    (requests ++ [key]).eraseDups =
      if key ∈ requests then requests.eraseDups else requests.eraseDups ++ [key] := by
  rw [List.eraseDups_append]
  split_ifs with hmem
  · simp [List.removeAll, hmem]
  · simp [List.removeAll, hmem, List.eraseDups_cons]

theorem nodup_eraseDups (requests : List Key) : requests.eraseDups.Nodup := by
  induction requests using List.reverseRecOn with
  | nil => simp
  | append_singleton requests key ih =>
    rw [eraseDups_concat]
    split_ifs with hmem
    · exact ih
    · have hnew : key ∉ requests.eraseDups := fun h ↦ hmem (List.mem_eraseDups.mp h)
      rw [← List.concat_eq_append]
      exact ih.concat hnew

theorem eraseDups_of_nodup {requests : List Key} (h : requests.Nodup) :
    requests.eraseDups = requests := by
  induction requests using List.reverseRecOn with
  | nil => simp
  | append_singleton requests key ih =>
    have hparts := List.nodup_append.mp h
    have hnew : key ∉ requests := fun hmem ↦ hparts.2.2 key hmem key (by simp) rfl
    rw [eraseDups_concat, if_neg hnew, ih hparts.1]

theorem card_toFinset_take_eraseDups (requests : List Key) (capacity : ℕ) :
    (requests.eraseDups.take capacity).toFinset.card =
      min capacity requests.eraseDups.length := by
  have hnodup : (requests.eraseDups.take capacity).Nodup :=
    (nodup_eraseDups requests).sublist (List.take_sublist _ _)
  rw [List.toFinset_card_of_nodup hnodup, List.length_take]

/-- The keys in the store are the first `capacity` distinct ones that were requested. -/
theorem foldl_takeIn (capacity : ℕ) (requests : List Key) :
    requests.foldl (takeIn capacity) ∅ = (requests.eraseDups.take capacity).toFinset := by
  induction requests using List.reverseRecOn with
  | nil => simp
  | append_singleton requests key ih =>
    have hcard := card_toFinset_take_eraseDups requests capacity
    rw [List.foldl_append, List.foldl_cons, List.foldl_nil, ih, eraseDups_concat]
    unfold takeIn
    by_cases hroom : requests.eraseDups.length < capacity
    · have hall : requests.eraseDups.take capacity = requests.eraseDups :=
        List.take_of_length_le hroom.le
      rw [if_pos (Or.inr (by omega)), hall]
      split_ifs with hmem
      · rw [hall]
        exact Finset.insert_eq_of_mem (List.mem_toFinset.mpr (List.mem_eraseDups.mpr hmem))
      · have hlonger : (requests.eraseDups ++ [key]).length ≤ capacity := by
          rw [List.length_append, List.length_singleton]
          exact hroom
        rw [List.take_of_length_le hlonger]
        ext other
        simp
    · -- The store is full, and the distinct keys beyond the first `capacity` do not count.
      have htake : (if key ∈ requests then requests.eraseDups else requests.eraseDups ++ [key]).take
          capacity = requests.eraseDups.take capacity := by
        split_ifs with hmem
        · rfl
        · exact List.take_append_of_le_length (not_lt.mp hroom)
      rw [htake]
      split_ifs with htaken
      · have hheld : key ∈ (requests.eraseDups.take capacity).toFinset :=
          htaken.resolve_right (by omega)
        exact Finset.insert_eq_of_mem hheld
      · rfl

/-- Whether a requested key is among the first ones does not depend on later requests. -/
theorem mem_take_eraseDups_append {requests : List Key} {key : Key} (hkey : key ∈ requests)
    (later : List Key) (capacity : ℕ) :
    key ∈ (requests ++ later).eraseDups.take capacity ↔ key ∈ requests.eraseDups.take capacity := by
  have hlater : key ∉ (later.removeAll requests).eraseDups.take
      (capacity - requests.eraseDups.length) := by
    intro hmem
    have hremoved := List.mem_eraseDups.mp (List.mem_of_mem_take hmem)
    simp [List.removeAll, hkey] at hremoved
  rw [List.eraseDups_append, List.take_append, List.mem_append]
  exact or_iff_left hlater

end FirstCome
