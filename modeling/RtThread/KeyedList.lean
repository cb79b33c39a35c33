import Mathlib.Tactic

/-!
# Lists of records with a key

A record is written through its key, as a structure is through its address.
-/

namespace RtThread

open List

variable {α κ : Type*} [DecidableEq κ] {key : α → κ} {d e x : α} {list : List α}

def replaceKeyed (key : α → κ) (d : α) (list : List α) : List α :=
  list.map fun a => if key a = key d then d else a

theorem mem_replaceKeyed (he : e ∈ list) (hkey : key d = key e) :
    x ∈ replaceKeyed key d list ↔ x = d ∨ x ∈ list ∧ key x ≠ key e := by
  unfold replaceKeyed
  rw [mem_map]
  constructor
  · rintro ⟨y, hy, rfl⟩
    split_ifs with hyd
    · exact .inl rfl
    · exact .inr ⟨hy, fun h => hyd (h.trans hkey.symm)⟩
  · rintro (rfl | ⟨hx, hne⟩)
    · exact ⟨e, he, if_pos hkey.symm⟩
    · exact ⟨x, hx, if_neg fun h => hne (h.trans hkey)⟩

theorem map_replaceKeyed (key : α → κ) (d : α) (list : List α) :
    (replaceKeyed key d list).map key = list.map key := by
  unfold replaceKeyed
  rw [map_map]
  refine map_congr_left fun y _ => ?_
  simp only [Function.comp_apply]
  split_ifs with h
  · exact h.symm
  · rfl

theorem replaceKeyed_replaceKeyed (hkey : key d = key e) (list : List α) :
    replaceKeyed key e (replaceKeyed key d list) = replaceKeyed key e list := by
  unfold replaceKeyed
  rw [map_map]
  refine map_congr_left fun y _ => ?_
  simp only [Function.comp_apply]
  by_cases hy : key y = key d
  · rw [if_pos hy, if_pos hkey, if_pos (hy.trans hkey)]
  · rw [if_neg hy]

omit [DecidableEq κ] in
theorem eq_of_key (hnodup : (list.map key).Nodup) (hd : d ∈ list) (he : e ∈ list)
    (hkey : key d = key e) : d = e :=
  inj_on_of_nodup_map hnodup hd he hkey

theorem mem_eraseP_keyed {k : κ} (hnodup : (list.map key).Nodup) :
    e ∈ list.eraseP (fun d => key d = k) ↔ e ∈ list ∧ key e ≠ k := by
  induction list with
  | nil => simp
  | cons x rest ih =>
    rw [map_cons, nodup_cons] at hnodup
    by_cases hx : key x = k
    · rw [eraseP_cons_of_pos (by simpa using hx), mem_cons]
      constructor
      · intro he
        refine ⟨.inr he, fun h => hnodup.1 ?_⟩
        rw [hx, ← h]
        exact mem_map_of_mem he
      · rintro ⟨rfl | he, hne⟩
        · contradiction
        · exact he
    · rw [eraseP_cons_of_neg (by simpa using hx), mem_cons, mem_cons, ih hnodup.2]
      constructor
      · rintro (rfl | ⟨he, hne⟩)
        · exact ⟨.inl rfl, hx⟩
        · exact ⟨.inr he, hne⟩
      · rintro ⟨rfl | he, hne⟩
        · exact .inl rfl
        · exact .inr ⟨he, hne⟩

theorem find?_keyed_eq_some {k : κ} (hnodup : (list.map key).Nodup) :
    list.find? (fun d => key d = k) = some e ↔ e ∈ list ∧ key e = k := by
  constructor
  · intro hfind
    exact ⟨mem_of_find?_eq_some hfind, by simpa using find?_some hfind⟩
  · rintro ⟨he, hkey⟩
    cases hfind : list.find? fun d => key d = k with
    | none => exact absurd (find?_eq_none.mp hfind e he) (by simpa using hkey)
    | some d =>
      have hd : key d = k := by simpa using find?_some hfind
      rw [eq_of_key hnodup (mem_of_find?_eq_some hfind) he (hd.trans hkey.symm)]

end RtThread
