import Schematic.Drawing.Markup

/-!
# Markup that has an encoding

The values of attributes come from settings and may have halves of characters.  Markup
without such values is a text of characters alone, which can be encoded.
-/

namespace Schematic

namespace Text

namespace Coded

/-- The text has no halves. -/
def IsWhole (text : Coded) : Prop :=
  ∃ content, text = ofText content

theorem isWhole_ofText (content : String) : (ofText content).IsWhole :=
  ⟨content, rfl⟩

theorem IsWhole.append {first second : Coded} (before : first.IsWhole) (after : second.IsWhole) :
    (first ++ second).IsWhole := by
  obtain ⟨start, rfl⟩ := before
  obtain ⟨behind, rfl⟩ := after
  exact ⟨start ++ behind, rfl⟩

theorem IsWhole.map {text : Coded} (whole : text.IsWhole) (change : String → String) :
    (text.map change).IsWhole := by
  obtain ⟨content, rfl⟩ := whole
  exact ⟨change content, rfl⟩

theorem isWhole_join {texts : List Coded} (each : ∀ text ∈ texts, text.IsWhole) :
    (join texts).IsWhole := by
  induction texts with
  | nil => exact isWhole_ofText ""
  | cons text rest ih =>
      obtain ⟨first, others⟩ := List.forall_mem_cons.mp each
      exact first.append (ih others)

end Coded

end Text

/-- The values of the attributes have no halves. -/
def Attributes.AreWhole (attributes : Attributes) : Prop :=
  ∀ pair ∈ attributes, pair.2.IsWhole

namespace Markup

open Text (Coded)

/-- Nothing in the markup has halves. -/
inductive IsWhole : Markup → Prop where
  | element {tag : String} {attributes : Attributes} {content : String}
      {children : List Markup} :
      attributes.AreWhole → (∀ child ∈ children, IsWhole child) →
      IsWhole (.element tag attributes content children)

theorem isWhole_attributesText {attributes : Attributes} (whole : attributes.AreWhole) :
    (attributesText attributes).IsWhole := by
  refine Coded.isWhole_join (List.forall_mem_map.mpr fun pair isPair => ?_)
  exact ((Coded.isWhole_ofText _).append ((whole pair isPair).map _)).append
    (Coded.isWhole_ofText _)

theorem isWhole_texts {markups : List Markup} (each : ∀ markup ∈ markups, markup.text.IsWhole) :
    (texts markups).IsWhole := by
  induction markups with
  | nil => exact Coded.isWhole_ofText ""
  | cons markup rest ih =>
      obtain ⟨first, others⟩ := List.forall_mem_cons.mp each
      rw [texts]
      exact first.append (ih others)

/-- Markup in which nothing has halves is a text without halves. -/
theorem IsWhole.text {markup : Markup} (whole : markup.IsWhole) : markup.text.IsWhole := by
  induction whole with
  | @element tag attributes content children areWhole _ ih =>
      have start := (Coded.isWhole_ofText ("<" ++ tag)).append (isWhole_attributesText areWhole)
      rw [Markup.text]
      split
      · exact start.append (Coded.isWhole_ofText _)
      · exact ((start.append (Coded.isWhole_ofText _)).append (isWhole_texts ih)).append
          (Coded.isWhole_ofText _)

end Markup

end Schematic
