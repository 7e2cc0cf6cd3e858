import Disassembly.Text.Basic
import Mathlib.Data.List.TakeWhile

/-!
# Cutting at a byte

`Text.pieces` is the splitting of the standard library (`Text.pieces_eq_splitOn`), so texts that
were joined with a byte that none of them has come apart again (`Text.pieces_joinWith`). The same
for the first occurrence alone: `Text.cut?` finds where a text without the byte ends
(`Text.cut?_append`), and cuts nowhere else (`Text.eq_of_cut?`).
-/

namespace Disassembly

namespace Text

theorem pieces_eq_splitOn (sep : UInt8) (t : Text) : pieces sep t = t.splitOn sep := by
  induction t with
  | nil => simp
  | cons b t ih =>
    rw [pieces_cons, List.splitOn_cons_eq_if_modifyHead, ih]
    have hne : t.splitOn sep ≠ [] := List.splitOn_ne_nil _ _
    unfold splitStep
    split
    · simp_all
    · split
      · contradiction
      · simp_all

/-- Texts that do not have the separator come apart where they were joined. -/
theorem pieces_joinWith {sep : UInt8} {ts : List Text} (hne : ts ≠ []) (hsep : ∀ t ∈ ts, sep ∉ t) :
    pieces sep (joinWith [sep] ts) = ts := by
  rw [pieces_eq_splitOn]
  exact List.splitOn_intercalate sep hsep hne

theorem exists_joinWith_cons (sep t : Text) (ts : List Text) :
    ∃ u, joinWith sep (t :: ts) = t ++ u := by
  cases ts with
  | nil => exact ⟨[], by simp [joinWith]⟩
  | cons v ts => exact ⟨_, by rw [joinWith, List.intercalate_cons_cons, List.append_assoc]⟩

theorem not_mem_joinWith {sep : Text} {ts : List Text} {b : UInt8} (hsep : b ∉ sep)
    (hts : ∀ t ∈ ts, b ∉ t) : b ∉ joinWith sep ts := by
  induction ts with
  | nil => simp [joinWith]
  | cons t ts ih =>
    obtain ⟨ht, hts⟩ := List.forall_mem_cons.mp hts
    have hrest := ih hts
    cases ts with
    | nil => simpa [joinWith] using ht
    | cons v ts =>
      rw [joinWith] at hrest ⊢
      rw [List.intercalate_cons_cons, List.mem_append, List.mem_append]
      rintro ((h | h) | h)
      · exact ht h
      · exact hsep h
      · exact hrest h

/-- A text cannot be cut at a byte that it does not have. -/
theorem cut?_of_not_mem {sep : UInt8} {t : Text} (h : sep ∉ t) : cut? sep t = none := by
  have hdrop : t.dropWhile (· != sep) = [] := by
    rw [List.dropWhile_eq_nil_iff]
    intro b hb
    simpa using fun hbs : b = sep => h (hbs ▸ hb)
  rw [cut?, hdrop]

/-- A text is cut where the separator stands for the first time. -/
theorem cut?_append {sep : UInt8} {t : Text} (h : sep ∉ t) (u : Text) :
    cut? sep (t ++ sep :: u) = some (t, u) := by
  have hall : ∀ b ∈ t, (b != sep) = true := by
    intro b hb
    simpa using fun hbs : b = sep => h (hbs ▸ hb)
  rw [cut?, List.dropWhile_append_of_pos hall, List.takeWhile_append_of_pos hall]
  simp

/-- What a text is cut into. -/
theorem eq_of_cut? {sep : UInt8} {t before after : Text} (h : cut? sep t = some (before, after)) :
    t = before ++ sep :: after ∧ sep ∉ before := by
  have hwhole := @List.takeWhile_append_dropWhile _ (· != sep) t
  unfold cut? at h
  split at h
  · contradiction
  · rename_i b rest hdrop
    obtain ⟨rfl, rfl⟩ := Prod.mk.inj (Option.some.inj h)
    have hb : b = sep := by
      have := List.head?_dropWhile_not (· != sep) t
      rw [hdrop] at this
      simpa using this
    rw [hdrop, hb] at hwhole
    refine ⟨hwhole.symm, fun hmem => ?_⟩
    simpa using List.mem_takeWhile_imp hmem

theorem strip?_append (lead t : Text) : strip? lead (lead ++ t) = some t := by
  simp [strip?]

theorem eq_of_strip? {lead t u : Text} (h : strip? lead t = some u) : t = lead ++ u := by
  unfold strip? at h
  split at h
  · rename_i hlead
    obtain rfl := Option.some.inj h
    have hwhole := List.take_append_drop lead.length t
    rw [hlead] at hwhole
    exact hwhole.symm
  · contradiction

/-- No piece has the separator. -/
theorem not_mem_of_mem_pieces {sep : UInt8} {t p : Text} (hp : p ∈ pieces sep t) : sep ∉ p := by
  induction t generalizing p with
  | nil =>
    obtain rfl := List.mem_singleton.mp hp
    exact List.not_mem_nil
  | cons b t ih =>
    rw [pieces_cons] at hp
    unfold splitStep at hp
    split at hp
    · rcases List.mem_cons.mp hp with rfl | hp
      · exact List.not_mem_nil
      · exact ih hp
    · rename_i hb
      split at hp
      · rename_i hnil
        exact absurd hnil (pieces_ne_nil sep t)
      · rename_i q qs hqs
        rw [hqs] at ih
        rcases List.mem_cons.mp hp with rfl | hp
        · rw [List.mem_cons]
          rintro (h | h)
          · exact hb h.symm
          · exact ih List.mem_cons_self h
        · exact ih (List.mem_cons_of_mem q hp)

end Text

end Disassembly
