import Disassembly.Template.Render
import Disassembly.Proofs.Operand.Told

/-!
# Reading a rendered template

Between the operands of an instruction stands text that no operand can contain, so what is written
for a reference ends where that text begins. In such a template (`Template.Separated`) the text for
every reference can be found again in the text of the whole (`Template.eq_of_render_eq`). Before the
first reference all texts that a template can give are the same (`Template.lead_prefix_render`).
-/

namespace Disassembly

namespace Text

/-- A text that is at its end, or goes on with a byte that stands in no operand. -/
def Breaks (t : Text) : Prop := ∀ b ∈ t.head?, isOperandByte b = false

/-- What a text begins with ends where the next byte is of another kind. -/
theorem takeWhile_append_of_head {p : UInt8 → Bool} {t u : Text} (ht : ∀ b ∈ t, p b = true)
    (hu : ∀ b ∈ u.head?, p b = false) : (t ++ u).takeWhile p = t := by
  rw [List.takeWhile_append_of_pos ht]
  cases u with
  | nil => simp
  | cons b u => rw [List.takeWhile_cons_of_neg (by simp [hu b rfl]), List.append_nil]

/-- Two texts that begin with bytes of a kind, and go on with a byte of another kind, are equal only
if both parts are. -/
theorem append_inj_of_head {p : UInt8 → Bool} {t u t' u' : Text} (ht : ∀ b ∈ t, p b = true)
    (ht' : ∀ b ∈ t', p b = true) (hu : ∀ b ∈ u.head?, p b = false)
    (hu' : ∀ b ∈ u'.head?, p b = false) (h : t ++ u = t' ++ u') : t = t' ∧ u = u' := by
  have hsame : t = t' := by
    rw [← takeWhile_append_of_head ht hu, h, takeWhile_append_of_head ht' hu']
  subst hsame
  exact ⟨rfl, List.append_cancel_left h⟩

/-- An operand that is followed by a break determines where it ends. -/
theorem append_inj_of_breaks {t u t' u' : Text} (ht : ∀ b ∈ t, isOperandByte b = true)
    (ht' : ∀ b ∈ t', isOperandByte b = true) (hu : u.Breaks) (hu' : u'.Breaks)
    (h : t ++ u = t' ++ u') : t = t' ∧ u = u' :=
  append_inj_of_head ht ht' hu hu' h

end Text

open Text

/-- Whether a part may follow another: after a reference comes text that breaks. -/
def Part.mayFollow : Part → Part → Bool
  | .text _, _ => true
  | .field _, .text (b :: _) => !isOperandByte b
  | .field _, _ => false

namespace Template

/-- Every reference is at the end or is followed by text that breaks. -/
def Separated (parts : Template) : Prop :=
  parts.IsChain fun p q => p.mayFollow q = true

instance (parts : Template) : Decidable parts.Separated :=
  inferInstanceAs (Decidable (List.IsChain _ _))

/-- The text before the first reference. -/
def lead : Template → Text
  | .text t :: _ => t
  | _ => []

theorem render_cons (p : Part) (parts : Template) (fs : Fields) (formatters : Formatters) :
    render (p :: parts) fs formatters = p.render fs formatters ++ parts.render fs formatters :=
  rfl

theorem lead_prefix_render (parts : Template) (fs : Fields) (formatters : Formatters) :
    parts.lead <+: parts.render fs formatters := by
  match parts with
  | [] => exact List.nil_prefix
  | .field _ :: _ => exact List.nil_prefix
  | .text t :: parts => exact List.prefix_append t _

/-- What follows a reference breaks, whatever the values. -/
theorem breaks_render {name : Text} {parts : Template} (h : Separated (.field name :: parts))
    (fs : Fields) (formatters : Formatters) : (parts.render fs formatters).Breaks := by
  match parts with
  | [] =>
    intro b hb
    cases hb
  | .field _ :: _ => exact absurd h.rel Bool.false_ne_true
  | .text [] :: _ => exact absurd h.rel Bool.false_ne_true
  | .text (c :: t) :: _ =>
    intro b hb
    obtain rfl : c = b := Option.some.inj hb
    simpa [Part.mayFollow] using h.rel

variable {formatters : Formatters}
  (hformat : ∀ name v, ∀ b ∈ formatters.get name v, isOperandByte b = true)
include hformat

theorem isOperandByte_render_field (name : Text) (fs : Fields) :
    ∀ b ∈ (Part.field name).render fs formatters, isOperandByte b = true := by
  rw [Part.render]
  split
  · exact hformat _ _
  · exact List.all_eq_true.mp (by decide)

/-- The text of a template determines the text for every reference in it. -/
theorem eq_of_render_eq {parts : Template} (hparts : parts.Separated) {fs fs' : Fields}
    (h : parts.render fs formatters = parts.render fs' formatters) {name : Text}
    (hname : name ∈ parts.names) :
    (Part.field name).render fs formatters = (Part.field name).render fs' formatters := by
  induction parts with
  | nil => cases hname
  | cons p parts ih =>
    rw [render_cons, render_cons] at h
    cases p with
    | text t => exact ih hparts.tail (List.append_cancel_left h) hname
    | field n =>
      obtain ⟨hfirst, hrest⟩ := append_inj_of_breaks (isOperandByte_render_field hformat n fs)
        (isOperandByte_render_field hformat n fs') (breaks_render hparts fs formatters)
        (breaks_render hparts fs' formatters) h
      rcases List.mem_cons.mp hname with rfl | hname
      · exact hfirst
      · exact ih hparts.tail hrest hname

end Template

end Disassembly
