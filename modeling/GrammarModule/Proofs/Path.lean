import GrammarModule.Path
import GrammarModule.Proofs.Text.Utf8

/-!
# GrammarModule.Proofs.Path

The texts of joined paths. A path joined with a text is a text when the path is one, and only then
unless the text stands for itself.
-/

namespace GrammarModule
namespace Path

variable {p : Path} {s : String}

theorem text?_ofText (s : String) : (ofText s).text? = some s := by
  rw [text?, ofText, Text.decode?_encode, Option.map_some, String.ofList_toList]

theorem text?_append (bytes : List UInt8) (s : String) :
    (Path.mk (bytes ++ Text.encode s.toList)).text? = (Path.mk bytes).text?.map (· ++ s) := by
  rw [text?, text?, Text.decode?_append_encode]
  cases Text.decode? bytes <;> simp [String.ofList_append]

theorem text?_join_of_relative (h : (ofText s).isAbsolute = false) (p : Path) :
    ∃ separator, (p.join (ofText s)).text? = p.text?.map (· ++ (separator ++ s)) := by
  rw [join, if_neg (Bool.eq_false_iff.1 h)]
  split
  · refine ⟨"", ?_⟩
    rw [ofText, text?_append, String.empty_append]
  · refine ⟨"/", ?_⟩
    have hslash : slash :: Text.encode s.toList = Text.encode ("/" ++ s).toList := by
      rw [String.toList_append, Text.encode_append]
      rfl
    rw [ofText, hslash, text?_append]

theorem isSome_text?_join_of_relative (h : (ofText s).isAbsolute = false) (p : Path) :
    (p.join (ofText s)).text?.isSome = p.text?.isSome := by
  obtain ⟨separator, htext⟩ := text?_join_of_relative h p
  rw [htext, Option.isSome_map]

theorem isSome_text?_join (h : p.text?.isSome = true) (s : String) :
    (p.join (ofText s)).text?.isSome = true := by
  cases ha : (ofText s).isAbsolute with
  | true => rw [join, if_pos ha, text?_ofText, Option.isSome_some]
  | false => rw [isSome_text?_join_of_relative ha, h]

end Path
end GrammarModule
