import ClausalForm.Proofs.DrawnNames
import ClausalForm.Proofs.Loops

/-! # A shared supply of fresh names

One supply of fresh names serves requests of all kinds in any order: single names, names to avoid
from then on, and the elimination of the functions of whole formulas, which may fail.

* **`FreshSupply.turn`**, **`FreshSupply.loop_next`**: a call for a name is a loop, which ends.
* **`FreshSupply.serveAll`**: what happens when some requests are served.
* **`FreshSupply.Leads`**: events that lead from one supply to another without a repeated name.
* **`FreshSupply.serveAll_avoiding`**: no request ever leads to a repeated name. -/

namespace ClausalForm.FreshSupply

variable {s t u : FreshSupply}

/-! ## One call -/

/-- `turn function s`: one turn of a call. The name with the next number is handed out and taken
from then on, or passed over because it is taken. -/
def turn (function : String) (s : FreshSupply) : FreshSupply ⊕ (String × FreshSupply) :=
  let name := numbered (freshStem function) (s.counter + 1)
  if name ∈ s.taken then .inl { s with counter := s.counter + 1 }
  else .inr (name, { taken := name :: s.taken, counter := s.counter + 1 })

/-- `Loop (turn function) turns s (next function s)`: a call takes its turns until it returns the
next name, at most one more than there are taken names. -/
theorem loop_next (function : String) (s : FreshSupply) :
    ∃ turns ≤ s.taken.length + 1, Loop (turn function) turns s (next function s) := by
  have forward := le_firstUnused (numbered (freshStem function)) s.taken (s.counter + 1)
  have fresh := candidate_firstUnused_not_mem (numbered_injective (freshStem function)) s.taken
    (s.counter + 1)
  -- The turn that tries the number `i` starts with the number before it as the last one used.
  have tries : ∀ i, s.counter + 1 ≤ i → turn function { s with counter := i - 1 } =
      if numbered (freshStem function) i ∈ s.taken then .inl { s with counter := i }
      else .inr (numbered (freshStem function) i,
        { taken := numbered (freshStem function) i :: s.taken, counter := i }) := by
    intro i after
    rw [turn, Nat.sub_add_cancel (by omega)]
  refine Loop.of_taken (fun i => { s with counter := i - 1 }) forward (Nat.le_refl _) ?_ ?_
  · intro i after before taken
    rw [tries i after, if_pos taken]
    rfl
  · rw [tries _ forward, if_neg fresh]
    rfl

/-! ## Requests -/

/-- What may be asked of a supply. -/
inductive Request where
  /-- A name for a value of the function. -/
  | next (function : String)
  /-- To avoid some names from now on. -/
  | reserve (names : List String)
  /-- The elimination of the functions of a formula. -/
  | eliminate (φ : Formula)

/-- What happens when requests are served. -/
inductive Event where
  /-- A name is handed out. -/
  | handed (name : String)
  /-- Some names are to be avoided. -/
  | reserved (names : List String)

/-- `e.names`: the names that are not handed out after an event. -/
def Event.names : Event → List String
  | handed name => [name]
  | reserved names => names

/-- `serve request s`: the events when a request is served, and the supply after it. Elimination
hands out names also where it fails. -/
def serve : Request → FreshSupply → List Event × FreshSupply
  | .next function, s => ([.handed (next function s).1], (next function s).2)
  | .reserve names, s => ([.reserved names], s.reserve names)
  | .eliminate φ, s =>
    ((handedOut s (φ.eliminateFunctions s).2).map .handed, (φ.eliminateFunctions s).2)

/-- `serveAll requests s`: the events when some requests are served one after the other, and the
supply after them. -/
def serveAll : List Request → FreshSupply → List Event × FreshSupply
  | [], s => ([], s)
  | request :: requests, s =>
    ((serve request s).1 ++ (serveAll requests (serve request s).2).1,
      (serveAll requests (serve request s).2).2)

/-! ## Events -/

/-- The events lead from the supply `s` to the supply `t`, which takes their names. A name that is
handed out is not taken in `s`, and is no name of an earlier event. -/
structure Leads (s : FreshSupply) (events : List Event) (t : FreshSupply) : Prop where
  taken : ∀ x, x ∈ t.taken ↔ x ∈ s.taken ∨ ∃ event ∈ events, x ∈ event.names
  fresh : ∀ x, .handed x ∈ events → x ∉ s.taken
  apart : events.Pairwise fun earlier later => ∀ x, later = .handed x → x ∉ earlier.names

namespace Leads

variable {events more : List Event}

/-- Nothing happens. -/
theorem refl (s : FreshSupply) : s.Leads [] s :=
  ⟨fun x => by simp, fun x mem => absurd mem List.not_mem_nil, .nil⟩

/-- `s.Leads (events ++ more) u`: some events after others. -/
theorem append (first : s.Leads events t) (second : t.Leads more u) :
    s.Leads (events ++ more) u := by
  refine ⟨fun x => ?_, fun x mem => ?_, List.pairwise_append.2 ⟨first.apart, second.apart, ?_⟩⟩
  · simp only [second.taken, first.taken, List.mem_append, or_and_right, exists_or, or_assoc]
  · rcases List.mem_append.1 mem with left | right
    · exact first.fresh x left
    · exact fun taken => second.fresh x right ((first.taken x).2 (.inl taken))
  · -- The names of the first events are taken when the others happen.
    rintro earlier before later after x rfl mem
    exact second.fresh x after ((first.taken x).2 (.inr ⟨earlier, before, mem⟩))

end Leads

/-- Names that a supply issues are handed out. -/
theorem Issues.leads {names : List String} (h : s.Issues names t) :
    s.Leads (names.map .handed) t := by
  refine ⟨fun x => ?_, fun x mem => ?_, List.pairwise_map.2 ?_⟩
  · simp [h.mem_taken, Event.names, or_comm]
  · obtain ⟨y, handed, same⟩ := List.mem_map.1 mem
    cases same
    exact h.fresh x handed
  · refine h.nodup.imp fun ne x same mem => ?_
    cases same
    exact ne (List.mem_singleton.1 mem).symm

/-- `s.reserve names`: names that are to be avoided are taken from then on. -/
theorem leads_reserve (names : List String) (s : FreshSupply) :
    s.Leads [.reserved names] (s.reserve names) := by
  refine ⟨fun x => ?_, fun x mem => ?_, List.pairwise_singleton _ _⟩
  · simp [reserve, Event.names, or_comm]
  · cases List.mem_singleton.1 mem

/-- `φ.eliminateFunctions s`: elimination changes a supply by handing out names. -/
theorem issues_eliminateFunctions (φ : Formula) (s : FreshSupply) :
    s.Issues (handedOut s (φ.eliminateFunctions s).2) (φ.eliminateFunctions s).2 := by
  obtain ⟨drawn, -, reached, -⟩ := φ.draws_eliminateFunctions s
  have issues := issues_draw drawn s
  rw [← reached] at issues
  rwa [issues.handedOut_eq]

/-- `serve request s`: a request is served without a repeated name. -/
theorem leads_serve (request : Request) (s : FreshSupply) :
    s.Leads (serve request s).1 (serve request s).2 := by
  cases request with
  | next function => exact (issues_next function s).leads
  | reserve names => exact leads_reserve names s
  | eliminate φ => exact (issues_eliminateFunctions φ s).leads

/-- `serveAll requests s`: any requests are served without a repeated name. -/
theorem leads_serveAll (requests : List Request) (s : FreshSupply) :
    s.Leads (serveAll requests s).1 (serveAll requests s).2 := by
  induction requests generalizing s with
  | nil => exact .refl s
  | cons request requests ih => exact (leads_serve request s).append (ih _)

/-- **A shared supply.** Whatever is asked of it by `serveAll`, a supply never repeats a name: no
name that is handed out is one of those avoided from the start, and none has been handed out or
reserved before. Every call for a name ends, for any function; and what elimination hands out are
the names for the applications in the formula, one after the other, which it binds if it
succeeds. -/
theorem serveAll_avoiding (taken : List String) (requests : List Request) :
    (∀ x, .handed x ∈ (serveAll requests (avoiding taken)).1 → x ∉ taken) ∧
      (serveAll requests (avoiding taken)).1.Pairwise
        (fun earlier later => ∀ x, later = .handed x → x ∉ earlier.names) ∧
      (∀ (function : String) (s : FreshSupply),
        ∃ turns ≤ s.taken.length + 1, Loop (turn function) turns s (next function s)) ∧
      ∀ (φ : Formula) (s : FreshSupply), ∃ drawn, drawn <+: φ.applications.map Prod.fst ∧
        draw drawn s = (handedOut s (φ.eliminateFunctions s).2, (φ.eliminateFunctions s).2) ∧
        ∀ ψ, (φ.eliminateFunctions s).1.result = .ok ψ →
          drawn = φ.applications.map Prod.fst ∧
            ψ.boundVariables.Perm
              (φ.boundVariables ++ handedOut s (φ.eliminateFunctions s).2) := by
  have leads := leads_serveAll requests (avoiding taken)
  refine ⟨leads.fresh, leads.apart, loop_next, fun φ s => ?_⟩
  obtain ⟨drawn, begins, reached, whole⟩ := φ.draws_eliminateFunctions s
  have names : handedOut s (φ.eliminateFunctions s).2 = (draw drawn s).1 := by
    rw [reached, (issues_draw drawn s).handedOut_eq]
  refine ⟨drawn, begins, Prod.ext names.symm reached.symm, fun ψ ok => ?_⟩
  obtain ⟨rfl, bound⟩ := whole ψ ok
  rw [names]
  exact ⟨rfl, bound⟩

set_option maxRecDepth 10000 in
/-- A name is passed over if it is avoided from the start or reserved later. -/
example : (serveAll [.next "f", .reserve ["g3"], .next "G", .next ""] (avoiding ["f1"])).1.map
    Event.names = [["f2"], ["g3"], ["g4"], ["v5"]] := by
  cbv

end ClausalForm.FreshSupply
