import DirectoryAccess.Proofs.Name.Display
import DirectoryAccess.Proofs.Text.Stability

/-! # Normalized names — the text that names are compared by is a name's

    A name with its values in lower case is displayed as the text that the name is
    compared by.  So that text can be read too, and what is read is the same name.
    Of lower casing this takes three facts: done twice it is done once, it leaves no
    blank at the ends of a trimmed value, and it leaves something of every value. -/

namespace DirectoryAccess

namespace Rdn

/-- The component with its value in lower case. -/
def normalized (r : Rdn) : Rdn where
  attr := r.attr
  value := r.normValue
  attr_type := r.attr_type
  attr_lower := r.attr_lower
  value_trimmed := Text.trim_lowercase r.value_trimmed
  value_nonempty := Text.lowercase_ne_empty r.value_nonempty

/-- A component and its normalized one are compared equal. -/
theorem key_normalized (r : Rdn) : r.normalized.key = r.key :=
  Prod.ext rfl (Text.lowercase_lowercase r.value)

/-- The text of a displayed component is a single part, and is read as it was. -/
theorem parse_display (r : Rdn) : parse r.display = .ok r := by
  have hparts : splitParts? r.display.toList = some [r.display.toList] := by
    have h := Dn.splitParts_display r []
    rwa [Dn.display_singleton] at h
  rw [parse, hparts]
  exact r.parseWritten_display

end Rdn

namespace Dn

/-- The name with its values in lower case. -/
def normalized (d : Dn) : Dn := ⟨d.rdns.map Rdn.normalized⟩

/-- The normalised name is displayed as the text that the name is compared by. -/
theorem display_normalized (d : Dn) : d.normalized.display = d.norm := by
  rw [display, normalized, List.map_map]
  rfl

/-- The normalised name has the key of the name. -/
theorem key_normalized (d : Dn) : d.normalized.key = d.key := by
  rw [key, normalized, List.map_map]
  exact List.map_congr_left fun r _ => r.key_normalized

/-- **NAMES SURVIVE PRINTING**: the displayed text of a name is read as that name, each
    component with its type and its value as they were; the text that it is compared by is
    read as a name equal to it, the one with its values in lower case; and the displayed text
    of a component is read as that component. -/
theorem names_survive_printing :
    (∀ d : Dn, parse d.display = .ok d
        ∧ parse d.norm = .ok d.normalized ∧ d.normalized.same d = true)
      ∧ ∀ r : Rdn, Rdn.parse r.display = .ok r := by
  refine ⟨fun d => ⟨d.parse_display, ?_, ?_⟩, Rdn.parse_display⟩
  · rw [← display_normalized]
    exact d.normalized.parse_display
  · exact (same_iff d.normalized d).mpr d.key_normalized

end Dn

end DirectoryAccess
