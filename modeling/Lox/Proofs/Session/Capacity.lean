import Lox.Proofs.Session.Requests

/-!
# A log that takes only so much

Two sessions with the same requests are compared, one over a log that takes a number of octets in
all and one over a log without a bound. The bounded log holds the first octets of what the other one
holds, the same is remembered after each request, and a request ends early exactly if what it writes
goes beyond the bound (`session_bounded`). Everything else is answered alike.
-/

set_option autoImplicit false
set_option relaxedAutoImplicit false

namespace Lox

open Reporter

theorem Log.fits_some_eq_false_iff {limit : Nat} {octets : Octets} :
    fits (some limit) octets = false ↔ limit < octets.length := by
  simp [fits]

namespace Request

variable {limit : Nat} {octets : Octets} {hadError : Bool} {request : Request}

/-- A request ends early exactly if it writes something that the log cannot hold. -/
theorem result_answerAt_eq_error_iff :
    (request.answerAt (some limit) octets hadError).result = .error .logFull ↔
      request.octets hadError ≠ [] ∧ limit < (octets ++ request.octets hadError).length := by
  rw [ne_eq, octets_eq_nil_iff, ← Log.fits_some_eq_false_iff]
  unfold answerAt
  cases (request.verdict hadError).reports <;>
    cases Log.fits (some limit) (octets ++ request.octets hadError) <;> simp

theorem result_answerAt_of_ne_error
    (hresult : (request.answerAt (some limit) octets hadError).result ≠ .error .logFull) :
    (request.answerAt (some limit) octets hadError).result =
      (request.answerAt none octets hadError).result := by
  rw [answerAt_none]
  unfold answerAt at hresult ⊢
  split
  case isTrue => rfl
  case isFalse hfull => exact absurd (if_neg hfull) hresult

end Request

theorem flatMap_written_fresh (capacity? : Option Nat) (requests : List Request) :
    (session (.fresh capacity?) requests).1.flatMap Answer.written =
      Log.cutTo capacity? (octetsOf false requests) := by
  have hnil : Log.cutTo capacity? [] = [] := by cases capacity? <;> simp [Log.cutTo]
  have hwritten := cutTo_append_flatMap_written capacity? [] false requests
  rwa [hnil, List.nil_append, List.nil_append, ← fresh_eq_given] at hwritten

theorem octets_session_fresh (capacity? : Option Nat) (requests : List Request) :
    (session (.fresh capacity?) requests).2.log.octets =
      Log.cutTo capacity? (octetsOf false requests) := by
  rw [fresh_eq_given, session_given]
  rfl

theorem getElem?_session_fresh (capacity? : Option Nat) (requests : List Request) (index : Nat) :
    (session (.fresh capacity?) requests).1[index]? =
      requests[index]?.map (Request.answerAt capacity? (octetsOf false (requests.take index))
        ((requests.take index).foldl Request.remembers false)) := by
  rw [fresh_eq_given, getElem?_session_given, List.nil_append]

/-- A bound on the log cuts off what is written and changes nothing else but the results of the
requests that write beyond it. -/
theorem session_bounded (limit : Nat) (requests : List Request) :
    let bounded := session (.fresh (some limit)) requests
    let unbounded := session (.fresh none) requests
    bounded.2.log.octets = unbounded.2.log.octets.take limit ∧
    unbounded.2.log.octets = unbounded.1.flatMap Answer.written ∧
    bounded.1.length = requests.length ∧ unbounded.1.length = requests.length ∧
    ∀ index answer whole, bounded.1[index]? = some answer → unbounded.1[index]? = some whole →
      let output := (unbounded.1.take (index + 1)).flatMap Answer.written
      (bounded.1.take (index + 1)).flatMap Answer.written = output.take limit ∧
      answer.hadError = whole.hadError ∧
      (answer.result = .error .logFull ↔ whole.written ≠ [] ∧ limit < output.length) ∧
      (answer.result ≠ .error .logFull → answer.result = whole.result) := by
  intro bounded unbounded
  refine ⟨?_, ?_, length_session _ _, length_session _ _, ?_⟩
  · rw [octets_session_fresh, octets_session_fresh]
    rfl
  · rw [octets_session_fresh, flatMap_written_fresh]
  intro index answer whole hanswer hwhole output
  have houtput : output = octetsOf false (requests.take (index + 1)) := by
    change (unbounded.1.take (index + 1)).flatMap Answer.written = _
    rw [take_session, flatMap_written_fresh]
    rfl
  change (session (.fresh (some limit)) requests).1[index]? = _ at hanswer
  change (session (.fresh none) requests).1[index]? = _ at hwhole
  rw [getElem?_session_fresh] at hanswer hwhole
  obtain ⟨request, hrequest, rfl⟩ := Option.map_eq_some_iff.mp hanswer
  rw [hrequest] at hwhole
  cases hwhole
  have hgiven : output = octetsOf false (requests.take index) ++
      request.octets ((requests.take index).foldl Request.remembers false) := by
    rw [houtput, List.take_add_one, hrequest, octetsOf_append]
    simp [octetsOf]
  refine ⟨?_, rfl, ?_, Request.result_answerAt_of_ne_error⟩
  · rw [houtput, take_session, flatMap_written_fresh]
    rfl
  · rw [hgiven, Request.result_answerAt_eq_error_iff, Request.answerAt_none]

/-- The second line of the first run is cut off in its middle. The second run is not concerned. -/
theorem session_bounded_two_runs :
    let requests := [Request.run "+ \"", .run "nil"]
    let bounded := session (.fresh (some 45)) requests
    let unbounded := session (.fresh none) requests
    bounded.2.log.octets = .ofText "[line 1] Error: Unterminated string.\n[line 1]" ∧
      (∃ answer whole : Answer, bounded.1[0]? = some answer ∧ unbounded.1[0]? = some whole ∧
        answer.hadError = whole.hadError ∧ answer.result = .error .logFull) ∧
      ∃ answer whole : Answer, bounded.1[1]? = some answer ∧ unbounded.1[1]? = some whole ∧
        answer.hadError = whole.hadError ∧ answer.result = whole.result := by
  intro requests bounded unbounded
  obtain ⟨hoctets, _, _, _, hanswers⟩ := session_bounded 45 requests
  obtain ⟨_, hfirst, hfull, _⟩ := hanswers 0 _ _ rfl rfl
  obtain ⟨_, hsecond, hfits, hsame⟩ := hanswers 1 _ _ rfl rfl
  have hnone : ¬ _ := mt hfits.mp (by decide +kernel)
  refine ⟨?_, ⟨_, _, rfl, rfl, hfirst, hfull.mpr (by decide +kernel)⟩,
    _, _, rfl, rfl, hsecond, hsame hnone⟩
  rw [hoctets]
  decide +kernel

end Lox
