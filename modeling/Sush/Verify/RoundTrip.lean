import Sush.Common.Plain
import Sush.Common.Serde

/-!
# Targets survive being printed

A target is signed as its text, so a signature verifies only where the text a target prints as is the
text that was signed. Many texts parse to one target, among them the one it prints as; so printing tells
parsed targets apart, and a request that was written in either format and read back is the same request
and signs the same bytes (`target_text_round_trip`).
-/

namespace Sush

variable [World] [Phrases]

namespace Target

theorem display_inj {t u : Target} (hbase : BaseboardText) (ht : t.Parsed) (hu : u.Parsed)
    (h : t.display = u.display) : t = u := by
  have hread := fromStr_display ht hbase
  rw [h, fromStr_display hu hbase] at hread
  exact (Except.ok.inj hread).symm

end Target

/-- **Targets survive being printed.** The text of a parsed target parses to it, printing tells parsed
targets apart, and a request for a parsed target is read back as it was written, and then signs the same
bytes. -/
theorem target_text_round_trip [Digest] (hbase : BaseboardText) :
    (∀ (s : String) (t : Target), Target.fromStr s = .ok t → Target.fromStr t.display = .ok t) ∧
    (∀ t u : Target, t.Parsed → u.Parsed → t.display = u.display → t = u) ∧
    ∀ (format : Format) (request : JobStartRequest), request.target.Parsed →
      ∃ read, JobStartRequest.deserialize format (request.serialize format) = .ok read ∧
        read = request ∧ read.toBeSigned = request.toBeSigned := by
  refine ⟨fun s t h => Target.fromStr_display ⟨s, h⟩ hbase,
    fun t u ht hu => Target.display_inj hbase ht hu, fun format request htarget => ?_⟩
  exact ⟨request, JobStartRequest.deserialize_serialize format htarget hbase, rfl, rfl⟩

end Sush

namespace Sush.Plain

attribute [local instance] world phrases digest

/-- `" 014, 913-0000019:BRM42220031"` names cubby 14 and a baseboard, and prints without the blanks and
the zero. -/
def twoSleds : Target := .sleds [.cubby 14, .baseboard (toLex ("913-0000019", "BRM42220031"))]

theorem target_text_round_trip_twoSleds :
    Target.fromStr " 014, 913-0000019:BRM42220031" = .ok twoSleds ∧
      twoSleds.display = "14,913-0000019:BRM42220031" ∧
      Target.fromStr twoSleds.display = .ok twoSleds := by
  have hparse : Target.fromStr " 014, 913-0000019:BRM42220031" = .ok twoSleds := by rfl
  exact ⟨hparse, by rfl, (target_text_round_trip baseboardText).1 _ _ hparse⟩

end Sush.Plain
