import Harvest.Listing
import Harvest.Proofs.Engine

/-!
# Recorded scans

What a source is asked, and what it answers, can be written down while a computation runs
(`Source.recorded`).  `Engine.Records m n P` says that `m` does what `n` does, and that it writes
down scans which, together with the result, have the property `P`.  It has the rules of
`Engine.Ensures`, with the scans of a sequence one after the other, and one rule for a scan
(`Engine.records_scanBatch`).  Nothing is assumed of the source.
-/

namespace Harvest

/-- A question for a batch, and the answer to it. -/
structure Exchange where
  query : ScanQuery
  answer : Except Fault (List Record)

/-- The same source, writing down its scans, earliest first. -/
def Source.recorded {σ : Type} (src : Source σ) : Source (σ × List Exchange) where
  scan q s :=
    let (answer, state) := src.scan q s.1
    (answer, state, s.2 ++ [⟨q, answer⟩])
  get uri s :=
    let (result, state) := src.get uri s.1
    (result, state, s.2)
  earliest s :=
    let (result, state) := src.earliest s.1
    (result, state, s.2)

end Harvest

namespace Harvest.Engine

variable {σ α β : Type} {m : Engine (σ × List Exchange) α} {n : Engine σ α}
  {P P' : List Exchange → Except Fault α → Prop} {Q : List Exchange → Except Fault β → Prop}

/-- Beside what another computation does, a computation only adds its scans to those written down
before; the scans and the result have a property. -/
def Records (m : Engine (σ × List Exchange) α) (n : Engine σ α)
    (P : List Exchange → Except Fault α → Prop) : Prop :=
  ∀ s past, ∃ scans, (m.run (s, past)).result = (n.run s).result ∧
    (m.run (s, past)).state = ((n.run s).state, past ++ scans) ∧ P scans (n.run s).result

theorem Records.imp (h : Records m n P) (hP : ∀ scans x, P scans x → P' scans x) :
    Records m n P' := by
  intro s past
  obtain ⟨scans, hresult, hstate, hscans⟩ := h s past
  exact ⟨scans, hresult, hstate, hP _ _ hscans⟩

theorem records_pure {a : α} (h : P [] (.ok a)) :
    Records (pure a : Engine (σ × List Exchange) α) (pure a) P :=
  fun s past => ⟨[], rfl, congrArg (Prod.mk s) (List.append_nil past).symm, h⟩

theorem records_fail {f : Fault} (h : P [] (.error f)) :
    Records (fail f : Engine (σ × List Exchange) α) (fail f) P :=
  fun s past => ⟨[], rfl, congrArg (Prod.mk s) (List.append_nil past).symm, h⟩

theorem records_ofExcept {x : Except Fault α} (h : P [] x) :
    Records (ofExcept x : Engine (σ × List Exchange) α) (ofExcept x) P := by
  cases x with
  | ok a => exact records_pure h
  | error f => exact records_fail h

theorem Records.bind {f : α → Engine (σ × List Exchange) β} {g : α → Engine σ β}
    (h : Records m n P)
    (hok : ∀ scans a, P scans (.ok a) → Records (f a) (g a) fun rest x => Q (scans ++ rest) x)
    (herror : ∀ scans e, P scans (.error e) → Q scans (.error e)) :
    Records (m >>= f) (n >>= g) Q := by
  intro s past
  obtain ⟨scans, hresult, hstate, hscans⟩ := h s past
  rw [run_bind, run_bind]
  cases hm : m.run (s, past) with
  | mk x state log =>
    cases hn : n.run s with
    | mk y state' log' =>
      rw [hm, hn] at hresult hstate
      rw [hn] at hscans
      obtain rfl : x = y := hresult
      obtain rfl : state = (state', past ++ scans) := hstate
      cases x with
      | error e => exact ⟨scans, rfl, rfl, herror _ _ hscans⟩
      | ok a =>
        obtain ⟨rest, hresult', hstate', hrest⟩ := hok scans a hscans state' (past ++ scans)
        refine ⟨scans ++ rest, hresult', ?_, hrest⟩
        rw [← List.append_assoc]
        exact hstate'

/-- To make something of a value takes no scans. -/
theorem Records.map {g : α → β} (h : Records m n P)
    (hQ : ∀ scans x, P scans x → Q scans (x.map g)) :
    Records (m >>= fun a => pure (g a)) (n >>= fun a => pure (g a)) Q := by
  refine h.bind (fun scans a ha => records_pure ?_) fun scans e he => hQ scans _ he
  rw [List.append_nil]
  exact hQ scans _ ha

theorem Records.tell_bind {lines : List LogLine} {f : Unit → Engine (σ × List Exchange) β}
    {g : Unit → Engine σ β} (h : Records (f ()) (g ()) Q) :
    Records (tell lines >>= f) (tell lines >>= g) Q :=
  fun s past => h s past

/-- A scan is written down with its answer, which is the result. -/
theorem records_scanBatch (src : Source σ) (q : ScanQuery) :
    Records (scanBatch src.recorded q) (scanBatch src q) fun scans x => scans = [⟨q, x⟩] := by
  have hask : Records (attempt (ask (src.recorded.scan q))) (attempt (ask (src.scan q)))
      fun scans x => ∃ y, x = .ok y ∧ scans = [⟨q, y⟩] :=
    fun s past => ⟨[⟨q, (src.scan q s).1⟩], rfl, rfl, _, rfl, rfl⟩
  unfold scanBatch
  refine hask.bind (fun scans y hy => ?_) (by rintro scans e ⟨y, ⟨⟩, -⟩)
  obtain ⟨_, ⟨⟩, rfl⟩ := hy
  cases y with
  | ok batch => exact records_pure rfl
  | error f => exact Records.tell_bind (records_fail rfl)

end Harvest.Engine
