import Harvest.Source

/-!
# What computations ensure

`Engine.Ensures I m P` says that `m`, started in a state with `I`, comes to an end in a state with
`I` and with a result, a fault or a value, of which `P` holds.  There is one rule for every way to
build a computation; a longer one is taken apart with `Ensures.bind`.  Two more notions have the
same rules: `Engine.Yields I m R` is about values alone, and `Engine.Agree I J m n` says that `m`
and `n`, started in states of their own, come to the same result.

What a chain of results without a source comes to is said first (`bind_eq_ok_iff`), and what
harvesters are told if it is a fault (`Tells`).
-/

namespace Harvest

/-! ### Results -/

section Results

variable {α β : Type}

@[simp]
theorem ok_bind (a : α) (f : α → Except Fault β) : (Except.ok a >>= f) = f a := rfl

@[simp]
theorem error_bind (e : Fault) (f : α → Except Fault β) :
    (Except.error e >>= f) = Except.error e := rfl

@[simp]
theorem throw_eq (e : Fault) : (throw e : Except Fault α) = .error e := rfl

@[simp]
theorem pure_eq (a : α) : (pure a : Except Fault α) = .ok a := rfl

theorem bind_eq_ok_iff {x : Except Fault α} {f : α → Except Fault β} {b : β} :
    x >>= f = .ok b ↔ ∃ a, x = .ok a ∧ f a = .ok b := by
  cases x <;> simp

theorem map_eq_ok_iff {x : Except Fault α} {f : α → β} {b : β} :
    x.map f = .ok b ↔ ∃ a, x = .ok a ∧ f a = b := by
  cases x <;> simp [Except.map]

theorem bind_eq_error_iff {x : Except Fault α} {f : α → Except Fault β} {e : Fault} :
    x >>= f = .error e ↔ x = .error e ∨ ∃ a, x = .ok a ∧ f a = .error e := by
  cases x <;> simp

theorem map_eq_error_iff {x : Except Fault α} {f : α → β} {e : Fault} :
    x.map f = .error e ↔ x = .error e := by
  cases x <;> simp [Except.map]

theorem exists_of_mem_mapM {f : α → Except Fault β} {xs : List α} {ys : List β}
    (h : xs.mapM f = .ok ys) {y : β} (hy : y ∈ ys) : ∃ x ∈ xs, f x = .ok y := by
  induction xs generalizing ys with
  | nil =>
    cases h
    cases hy
  | cons x xs ih =>
    rw [List.mapM_cons] at h
    obtain ⟨z, hz, h⟩ := bind_eq_ok_iff.1 h
    obtain ⟨zs, hzs, h⟩ := bind_eq_ok_iff.1 h
    cases h
    rcases List.mem_cons.1 hy with rfl | hy
    · exact ⟨x, List.mem_cons_self, hz⟩
    · obtain ⟨x', hx', hf⟩ := ih hzs hy
      exact ⟨x', List.mem_cons_of_mem _ hx', hf⟩

theorem map_of_mapM {γ : Type} {f : α → Except Fault β} {g : β → γ} {k : α → γ} {xs : List α}
    {ys : List β} (h : xs.mapM f = .ok ys) (hg : ∀ x y, f x = .ok y → g y = k x) :
    ys.map g = xs.map k := by
  induction xs generalizing ys with
  | nil =>
    cases h
    rfl
  | cons x xs ih =>
    rw [List.mapM_cons] at h
    obtain ⟨y, hy, h⟩ := bind_eq_ok_iff.1 h
    obtain ⟨ys, hys, h⟩ := bind_eq_ok_iff.1 h
    cases h
    rw [List.map_cons, List.map_cons, hg x y hy, ih hys]

theorem exists_of_mapM_eq_error {f : α → Except Fault β} {xs : List α} {e : Fault}
    (h : xs.mapM f = .error e) : ∃ x ∈ xs, f x = .error e := by
  induction xs with
  | nil => cases h
  | cons x xs ih =>
    rw [List.mapM_cons] at h
    obtain hx | ⟨y, -, h⟩ := bind_eq_error_iff.1 h
    · exact ⟨x, List.mem_cons_self, hx⟩
    · obtain hxs | ⟨ys, -, h⟩ := bind_eq_error_iff.1 h
      · obtain ⟨x', hx', hf⟩ := ih hxs
        exact ⟨x', List.mem_cons_of_mem _ hx', hf⟩
      · cases h

theorem length_of_mapM {f : α → Except Fault β} {xs : List α} {ys : List β}
    (h : xs.mapM f = .ok ys) : ys.length = xs.length := by
  simpa using congrArg List.length (map_of_mapM h (g := fun _ => ()) (k := fun _ => ())
    fun _ _ _ => rfl)

theorem exists_mapM_eq_ok {f : α → Except Fault β} {xs : List α} (h : ∀ x, ∃ y, f x = .ok y) :
    ∃ ys, xs.mapM f = .ok ys := by
  induction xs with
  | nil => exact ⟨[], rfl⟩
  | cons x xs ih =>
    obtain ⟨y, hy⟩ := h x
    obtain ⟨ys, hys⟩ := ih
    exact ⟨y :: ys, by rw [List.mapM_cons, hy, ok_bind, hys]; rfl⟩

/-- A result is a value with a property, or a fault.  A fault of the protocol is told to harvesters,
so its detail has a property too. -/
def Tells (D : String → Prop) (R : α → Prop) : Except Fault α → Prop
  | .ok a => R a
  | .error f => f.isProtocol = true → D f.detail

section Tells

variable {D D' : String → Prop} {R R' : α → Prop} {S : β → Prop} {x : Except Fault α}

theorem Tells.imp (h : Tells D R x) (hD : ∀ s, D s → D' s) (hR : ∀ a, R a → R' a) :
    Tells D' R' x := by
  cases x with
  | ok a => exact hR a h
  | error f => exact fun hown => hD _ (h hown)

theorem Tells.bind {f : α → Except Fault β} (h : Tells D R x) (hf : ∀ a, R a → Tells D S (f a)) :
    Tells D S (x >>= f) := by
  cases x with
  | ok a => exact hf a h
  | error e => exact h

theorem Tells.map {f : α → β} (h : Tells D R x) (hf : ∀ a, R a → S (f a)) :
    Tells D S (x.map f) := by
  cases x with
  | ok a => exact hf a h
  | error e => exact h

theorem tells_mapM {f : α → Except Fault β} {xs : List α} (h : ∀ x ∈ xs, Tells D S (f x)) :
    Tells D (fun ys => ∀ y ∈ ys, S y) (xs.mapM f) := by
  cases hys : xs.mapM f with
  | ok ys =>
    intro y hy
    obtain ⟨x, hx, hxy⟩ := exists_of_mem_mapM hys hy
    have hf := h x hx
    rwa [hxy] at hf
  | error e =>
    obtain ⟨x, hx, hxe⟩ := exists_of_mapM_eq_error hys
    have hf := h x hx
    rwa [hxe] at hf

end Tells

end Results

end Harvest

namespace Harvest.Engine

variable {σ α β : Type} {I : σ → Prop} {P : Except Fault α → Prop} {Q : Except Fault β → Prop}

theorem run_ofExcept (x : Except Fault α) (s : σ) : (ofExcept x).run s = ⟨x, s, []⟩ := by
  cases x <;> rfl

/-- What two computations come to, the second one in the state that the first one leaves. -/
theorem result_bind (m : Engine σ α) (f : α → Engine σ β) (s : σ) : ((m >>= f).run s).result =
    (m.run s).result >>= fun a => ((f a).run (m.run s).state).result := by
  rw [run_bind]
  cases m.run s with
  | mk result s' log => cases result <;> rfl

theorem result_ofExcept_bind (x : Except Fault α) (f : α → Engine σ β) (s : σ) :
    ((ofExcept x >>= f).run s).result = x >>= fun a => ((f a).run s).result := by
  rw [result_bind, run_ofExcept]

/-- What comes after a computation matters only for the values that it gives. -/
theorem bind_congr_of_ok {m : Engine σ α} {f g : α → Engine σ β}
    (h : ∀ s a, (m.run s).result = .ok a → f a = g a) : m >>= f = m >>= g := by
  funext s
  change (m >>= f).run s = (m >>= g).run s
  rw [run_bind, run_bind]
  cases hm : m.run s with
  | mk result s' log =>
    cases result with
    | ok a => simp only [h s a (by rw [hm])]
    | error e => rfl

theorem ofExcept_bind_congr {x : Except Fault α} {f g : α → Engine σ β}
    (h : ∀ a, x = .ok a → f a = g a) : ofExcept x >>= f = ofExcept x >>= g :=
  bind_congr_of_ok fun s a ha => h a (by rwa [run_ofExcept] at ha)

/-- From any state with `I`, the computation gives a result with `P` and keeps `I`. -/
def Ensures (I : σ → Prop) (m : Engine σ α) (P : Except Fault α → Prop) : Prop :=
  ∀ s, I s → P (m.run s).result ∧ I (m.run s).state

theorem Ensures.imp {m : Engine σ α} {P' : Except Fault α → Prop} (h : Ensures I m P)
    (hP : ∀ x, P x → P' x) : Ensures I m P' :=
  fun s hs => ⟨hP _ (h s hs).1, (h s hs).2⟩

theorem ensures_pure {a : α} (h : P (.ok a)) : Ensures I (pure a) P := fun _ hs => ⟨h, hs⟩

theorem ensures_fail {f : Fault} (h : P (.error f)) : Ensures I (fail f) P := fun _ hs => ⟨h, hs⟩

theorem ensures_ofExcept {x : Except Fault α} (h : P x) : Ensures I (ofExcept x) P := by
  cases x with
  | ok a => exact ensures_pure h
  | error f => exact ensures_fail h

theorem ensures_ask {question : σ → Except Fault α × σ}
    (h : ∀ s, I s → P (question s).1 ∧ I (question s).2) : Ensures I (ask question) P := h

/-- The second computation is entered only with a value of the first one. -/
theorem Ensures.bind {m : Engine σ α} {f : α → Engine σ β} (hm : Ensures I m P)
    (hok : ∀ a, P (.ok a) → Ensures I (f a) Q) (herror : ∀ e, P (.error e) → Q (.error e)) :
    Ensures I (m >>= f) Q := by
  intro s hs
  obtain ⟨hP, hI⟩ := hm s hs
  rw [run_bind]
  cases hr : m.run s with
  | mk result s' log =>
    rw [hr] at hP hI
    cases result with
    | ok a => exact hok a hP s' hI
    | error e => exact ⟨herror e hP, hI⟩

theorem Ensures.tells_bind {D : String → Prop} {R : α → Prop} {S : β → Prop} {m : Engine σ α}
    {f : α → Engine σ β} (hm : Ensures I m (Tells D R))
    (hf : ∀ a, R a → Ensures I (f a) (Tells D S)) : Ensures I (m >>= f) (Tells D S) :=
  Ensures.bind hm hf fun _ h => h

theorem Ensures.tell_bind {lines : List LogLine} {f : Unit → Engine σ β} (h : Ensures I (f ()) Q) :
    Ensures I (tell lines >>= f) Q :=
  fun s hs => h s hs

theorem Ensures.attempt {m : Engine σ α} (h : Ensures I m P) :
    Ensures I (attempt m) fun x => ∃ y, x = .ok y ∧ P y :=
  fun s hs => ⟨⟨_, rfl, (h s hs).1⟩, (h s hs).2⟩

/-! ### Values -/

/-- From any state with `I`, any value that the computation gives has a property. -/
def Yields (I : σ → Prop) (m : Engine σ α) (R : α → Prop) : Prop :=
  Ensures I m fun x => ∀ a, x = .ok a → R a

section Yields

variable {R : α → Prop} {S : β → Prop}

theorem Ensures.yields {m : Engine σ α} (h : Ensures I m P) (hP : ∀ a, P (.ok a) → R a) :
    Yields I m R :=
  h.imp fun _ hx a ha => hP a (ha ▸ hx)

theorem yields_pure {a : α} (h : R a) : Yields I (pure a) R :=
  ensures_pure fun _ hb => Except.ok.inj hb ▸ h

theorem yields_fail {f : Fault} : Yields I (fail f) R := ensures_fail fun _ => nofun

theorem yields_ofExcept {x : Except Fault α} (h : ∀ a, x = .ok a → R a) :
    Yields I (ofExcept x) R := ensures_ofExcept h

theorem Yields.bind {m : Engine σ α} {f : α → Engine σ β} (hm : Yields I m R)
    (hf : ∀ a, R a → Yields I (f a) S) : Yields I (m >>= f) S :=
  Ensures.bind hm (fun a ha => hf a (ha a rfl)) fun _ _ _ => nofun

theorem Yields.tell_bind {lines : List LogLine} {f : Unit → Engine σ β}
    (h : Yields I (f ()) S) : Yields I (tell lines >>= f) S := Ensures.tell_bind h

theorem Yields.attempt {m : Engine σ α} (h : Yields I m R) :
    Yields I (attempt m) fun x => ∀ a, x = .ok a → R a :=
  (Ensures.attempt h).yields fun _ ⟨_, hx, hy⟩ => Except.ok.inj hx ▸ hy

end Yields

/-! ### Two computations -/

/-- From states with `I` and with `J`, two computations come to the same result. -/
def Agree {τ : Type} (I : σ → Prop) (J : τ → Prop) (m : Engine σ α) (n : Engine τ α) : Prop :=
  ∀ s t, I s → J t → (m.run s).result = (n.run t).result ∧ I (m.run s).state ∧ J (n.run t).state

section Agree

variable {τ : Type} {J : τ → Prop} {m : Engine σ α} {n : Engine τ α}

theorem agree_pure (a : α) : Agree I J (pure a) (pure a) := fun _ _ hs ht => ⟨rfl, hs, ht⟩

theorem agree_fail (f : Fault) : Agree I J (fail f : Engine σ α) (fail f) :=
  fun _ _ hs ht => ⟨rfl, hs, ht⟩

theorem agree_ofExcept (x : Except Fault α) : Agree I J (ofExcept x) (ofExcept x) := by
  cases x with
  | ok a => exact agree_pure a
  | error f => exact agree_fail f

/-- Computations that ensure one result agree. -/
theorem Ensures.agree {x : Except Fault α} (hm : Ensures I m (· = x)) (hn : Ensures J n (· = x)) :
    Agree I J m n := by
  intro s t hs ht
  obtain ⟨hx, hI⟩ := hm s hs
  obtain ⟨hy, hJ⟩ := hn t ht
  exact ⟨hx.trans hy.symm, hI, hJ⟩

theorem Agree.bind {f : α → Engine σ β} {g : α → Engine τ β} (h : Agree I J m n)
    (hfg : ∀ a, Agree I J (f a) (g a)) : Agree I J (m >>= f) (n >>= g) := by
  intro s t hs ht
  obtain ⟨hresult, hI, hJ⟩ := h s t hs ht
  rw [run_bind, run_bind]
  cases hm : m.run s with
  | mk x s' log =>
    cases hn : n.run t with
    | mk y t' log' =>
      rw [hm, hn] at hresult
      rw [hm] at hI
      rw [hn] at hJ
      obtain rfl : x = y := hresult
      cases x with
      | ok a => exact hfg a s' t' hI hJ
      | error e => exact ⟨rfl, hI, hJ⟩

theorem Agree.tell_bind {lines lines' : List LogLine} {f : Unit → Engine σ β}
    {g : Unit → Engine τ β} (h : Agree I J (f ()) (g ())) :
    Agree I J (tell lines >>= f) (tell lines' >>= g) :=
  fun s t hs ht => h s t hs ht

theorem Agree.attempt (h : Agree I J m n) : Agree I J (attempt m) (attempt n) := by
  intro s t hs ht
  obtain ⟨hresult, hI, hJ⟩ := h s t hs ht
  exact ⟨congrArg Except.ok hresult, hI, hJ⟩

end Agree

end Harvest.Engine
