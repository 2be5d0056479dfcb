/-
  Swimlane — a candidate reads the same in a fence.

  * `trimString_quoted`: trimming an answer that is quoted leaves the quoted answer, so
    that the size of the answer is below the one that counts.
  * `unfenceString_quoted`, `readCandidate_quoted`: without its fence it is the answer,
    and it is read as the answer.
  * `fences_transparent`: all of this for every way to quote an answer, and for every
    text that the reader of JSON accepts.
-/
import Swimlane.Candidate
import Swimlane.Proofs.Json.Ends

namespace Swimlane

section
variable {front opening answer closing rest : String} {limits : Limits}
  (hfront : Text.Blank front.toList) (hopening : Text.Opening opening.toList)
  (hanswer : Text.Payload answer.toList) (hclosing : Text.Closing closing.toList)
  (hrest : Text.Blank rest.toList)
include hfront hopening hanswer hclosing hrest

theorem trimString_quoted : Text.trimString (front ++ (opening ++ answer ++ closing) ++ rest) =
    opening ++ answer ++ closing := by
  have hquoted := hanswer.toTrimmed.quoted hopening hclosing
  rw [Text.trimString, ← String.toList_inj]
  simp only [String.toList_ofList, String.toList_append]
  exact hquoted.trim_enclosed hfront hrest

theorem unfenceString_quoted :
    Text.unfenceString (front ++ (opening ++ answer ++ closing) ++ rest) = answer := by
  rw [Text.unfenceString, ← String.toList_inj]
  simp only [String.toList_ofList, String.toList_append]
  exact Text.unfence_enclosed hanswer hopening hclosing hfront hrest

/-- **A quoted answer** is read as the answer, if it may be read at all. -/
theorem readCandidate_quoted
    (hsize : (Text.trimString (front ++ (opening ++ answer ++ closing) ++ rest)).utf8ByteSize ≤
      limits.maxResponseBytes) :
    readCandidate limits (front ++ (opening ++ answer ++ closing) ++ rest) =
      readCandidate limits answer := by
  have hempty : Text.Blank "".toList := List.forall_mem_nil _
  have hopen : Text.Opening "".toList := .none
  have hclose : Text.Closing "".toList := .none
  have hplain : "" ++ ("" ++ answer ++ "") ++ "" = answer := by simp
  have hunfenced : Text.unfenceString answer = answer := by
    have h := unfenceString_quoted hempty hopen hanswer hclose hempty
    rwa [hplain] at h
  have htrimmed : Text.trimString answer = answer := by
    have h := trimString_quoted hempty hopen hanswer hclose hempty
    rwa [hplain, String.empty_append, String.append_empty] at h
  have hanswerSize : (Text.trimString answer).utf8ByteSize ≤ limits.maxResponseBytes := by
    rw [trimString_quoted hfront hopening hanswer hclosing hrest] at hsize
    rw [htrimmed]
    simp only [String.utf8ByteSize_append] at hsize
    omega
  rw [readCandidate, readCandidate, if_neg (Nat.not_lt.2 hsize), if_neg (Nat.not_lt.2 hanswerSize),
    unfenceString_quoted hfront hopening hanswer hclosing hrest, hunfenced]

end

/-- **Fences are transparent.**  An answer that does not begin or end with a blank or a
    fence, nor begin with the name of the format, may stand between blanks and an opening
    or a closing fence, or both: taking the fence off gives the answer, and the candidate
    is what the answer is, if it is not too long.  Every text of JSON is such an answer
    once it is trimmed. -/
theorem fences_transparent :
    (∀ front opening answer closing rest : String, Text.Blank front.toList →
      Text.Opening opening.toList → Text.Payload answer.toList → Text.Closing closing.toList →
      Text.Blank rest.toList →
      Text.unfenceString (front ++ (opening ++ answer ++ closing) ++ rest) = answer ∧
      ∀ limits : Limits,
        (Text.trimString (front ++ (opening ++ answer ++ closing) ++ rest)).utf8ByteSize ≤
          limits.maxResponseBytes →
        readCandidate limits (front ++ (opening ++ answer ++ closing) ++ rest) =
          readCandidate limits answer) ∧
    ∀ (d : ℕ) (shape : Json.Shape) (text : String) (v : Json),
      Json.readWithin d shape text = .ok v → Text.Payload (Text.trimString text).toList := by
  refine ⟨?_, ?_⟩
  · intro front opening answer closing rest hfront hopening hanswer hclosing hrest
    refine ⟨unfenceString_quoted hfront hopening hanswer hclosing hrest, fun limits hsize => ?_⟩
    exact readCandidate_quoted hfront hopening hanswer hclosing hrest hsize
  · intro d shape text v h
    rw [Text.trimString, String.toList_ofList]
    exact Json.payload_of_readWithin h

/-- A text of JSON that mentions a fence and the format. -/
def mention : String := "[\"```json\", \"a\"]"

/-- The text in a fence that names the format, with a long s. -/
def quotedMention : String :=
  "\u2003\n" ++ ("```J\u017FoN\u00A0" ++ mention ++ "\n```") ++ "\t"

theorem transparent_mention :
    Text.unfenceString quotedMention = mention ∧
      readCandidate {} quotedMention = readCandidate {} mention := by
  obtain ⟨htransparent, hjson⟩ := fences_transparent
  have hopening : Text.Opening "```J\u017FoN\u00A0".toList := by
    show Text.Opening (Text.fence ++ (['J', '\u017F', 'o', 'N'] ++ ['\u00A0']))
    refine .named ?_ (by simp [Text.Blank, Text.isBlank, Text.blankRanges])
    simp [Text.Spells, Text.formatName]
  have hclosing : Text.Closing "\n```".toList := by
    show Text.Closing (['\n'] ++ Text.fence)
    exact .bare (by simp [Text.Blank, Text.isBlank, Text.blankRanges])
  have hread : Json.readWithin Json.depthLimit .full mention =
      .ok (.arr [.str "```json", .str "a"]) := rfl
  have htrim : Text.trimString mention = mention := by decide +kernel
  have hmention : Text.Payload mention.toList := htrim ▸ hjson _ _ _ _ hread
  obtain ⟨hunfenced, hcandidate⟩ := htransparent "\u2003\n" "```J\u017FoN\u00A0" mention "\n```" "\t"
    (by decide +kernel) hopening hmention hclosing (by decide +kernel)
  exact ⟨hunfenced, hcandidate {} (by decide +kernel)⟩

end Swimlane
