import TinyAgents.Interaction.Exchanges

namespace Interaction

variable {C Op : Type} {Ans : Op → Type} {W R α β : Type}

def Tally (f : (op : Op) → Ans op → Nat) (Q : Nat → α → Prop) : Program Op Ans α → Nat → Prop
  | .ret a, n => Q n a
  | .ask op next, n => ∀ x, Tally f Q (next x) (n+f op x)

section

variable {f : (op : Op) → Ans op → Nat} {n : Nat} {Q : Nat → α → Prop} {p : Program Op Ans α}
  {ε : Type} {g : α → Fallible Op Ans ε β}

theorem tally_mono {Q'} (hQ : ∀ n a, Q n a → Q' n a) (h : Tally f Q p n) : Tally f Q' p n := by
  induction p generalizing n with
  | ret a => exact hQ n a h
  | ask _ _ ih => exact fun x => ih x (h x)

theorem tally_bind {Q' : Nat → β → Prop} {g} (hg : ∀ n a, Q n a → Tally f Q' (g a) n)
    (h : Tally f Q p n) : Tally f Q' (p >>= g) n := by
  induction p generalizing n with
  | ret a => exact hg n a h
  | ask _ _ ih => exact fun x => ih x (h x)

theorem tally_true (p : Program Op Ans α) (n : Nat) : Tally f (fun _ _ => True) p n := by
  induction p generalizing n with
  | ret => trivial
  | ask _ _ ih => exact fun x => ih x _

theorem tally_try {Q'} {p}
    (h : Tally f (fun n r => Except.casesOn r (fun e => Q' n (.error e)) (Q n)) p.run n)
    (hg : ∀ n a, Q n a → Tally f Q' (g a).run n) : Tally f Q' (p >>= g).run n := by
  refine tally_bind (fun n r hr => ?_) h
  cases r with
  | ok a => exact hg n a hr
  | error => exact hr

def Asks (P : Op → Prop) : Program Op Ans α → Prop
  | .ret _ => True
  | .ask op next => P op ∧ ∀ x, Asks P (next x)

variable {P : Op → Prop}

theorem asks_mono {P' : Op → Prop} (hP : ∀ op, P op → P' op) (h : Asks P p) : Asks P' p := by
  induction p with
  | ret => trivial
  | ask op _ ih => exact ⟨hP op h.1,fun x => ih x (h.2 x)⟩

theorem asks_all (hP : ∀ op, P op) : Asks P p := by
  induction p with
  | ret => trivial
  | ask op _ ih => exact ⟨hP op,ih⟩

theorem asks_bind {g : α → Program Op Ans β} (h : Asks P p) (hg : ∀ a, Asks P (g a)) :
    Asks P (p >>= g) := by
  induction p with
  | ret a => exact hg a
  | ask _ _ ih => exact ⟨h.1,fun x => ih x (h.2 x)⟩

theorem asks_perform {op : Op} {next : Ans op → Program Op Ans α} (hop : P op)
    (h : ∀ x, Asks P (next x)) : Asks P (Program.perform op >>= next) :=
  ⟨hop,h⟩

theorem asks_try {p : Fallible Op Ans ε α} (h : Asks P p.run) (hg : ∀ a, Asks P (g a).run) :
    Asks P (p >>= g).run := by
  refine asks_bind h fun r => ?_
  cases r with
  | ok a => exact hg a
  | error => trivial

theorem asks_embed {Op' : Type} {Ans' : Op' → Type} {f' : Op → Op'}
    {g : ∀ op, Ans' (f' op) → Ans op} {P' : Op' → Prop} (h : Asks (fun op => P' (f' op)) p) :
    Asks P' (p.embed f' g) := by
  induction p with
  | ret => trivial
  | ask _ _ ih => exact ⟨h.1,fun x => ih _ (h.2 _)⟩

variable (S : (op : Op) → Ans op → Prop)

def Heeds (P : Op → Prop) : Program Op Ans α → Prop
  | .ret _ => True
  | .ask op next => P op ∧ ∀ x, S op x → Heeds P (next x)

theorem heeds_of_asks {S} (h : Asks P p) : Heeds S P p := by
  induction p with
  | ret => trivial
  | ask _ _ ih => exact ⟨h.1,fun x _ => ih x (h.2 x)⟩

theorem Heeds.asks (h : Heeds (fun _ _ => True) P p) : Asks P p := by
  induction p with
  | ret => trivial
  | ask _ _ ih => exact ⟨h.1,fun x => ih x (h.2 x trivial)⟩

def Yields (Q : α → Prop) : Program Op Ans α → Prop
  | .ret a => Q a
  | .ask op next => ∀ x, S op x → Yields Q (next x)

variable {S : (op : Op) → Ans op → Prop}

theorem yields_bind {Q : α → Prop} {Q' : β → Prop} {g} (h : Yields S Q p)
    (hg : ∀ a, Q a → Yields S Q' (g a)) : Yields S Q' (p >>= g) := by
  induction p with
  | ret a => exact hg a h
  | ask _ _ ih => exact fun x hx => ih x (h x hx)

theorem yields_true : Yields S (fun _ => True) p := by
  induction p with
  | ret => trivial
  | ask _ _ ih => exact fun x _ => ih x

theorem yields_try {Q : ε → Prop} {p} (h : Yields S (fun r => ∀ e, r = .error e → Q e) p.run)
    (hg : ∀ a, Yields S (fun r => ∀ e, r = .error e → Q e) (g a).run) :
    Yields S (fun r => ∀ e, r = .error e → Q e) (p >>= g).run := by
  refine yields_bind h fun r hr => ?_
  cases r with
  | ok a => exact hg a
  | error e =>
    rintro _ ⟨⟩
    exact hr e rfl

theorem yields_lifted {Q : α → Prop} {Q'} (h : Yields S Q p)
    (hg : ∀ a, Q a → Yields S Q' (g a).run) : Yields S Q' (ExceptT.lift p >>= g).run := by
  have hl : Yields S (fun r => ∃ a, r = .ok a ∧ Q a) (ExceptT.lift p : Fallible Op Ans ε α).run :=
    yields_bind h fun a ha => ⟨a,rfl,ha⟩
  refine yields_bind hl ?_
  rintro _ ⟨a,rfl,ha⟩
  exact hg a ha

theorem safe_of_asks {L} {I : W → Prop} (hr : ∀ w v, I w → L.rely w v → I v)
    (hP : ∀ op w, P op → I w → L.guar op w ∧ ∀ x w', L.outcome op w x w' → I w') (h : Asks P p)
    {w : W} (hw : I w) : Safe L (fun _ => I) p w := by
  induction p generalizing w with
  | ret => exact fun v hv => hr w v hw hv
  | ask op _ ih =>
    intro v hv
    obtain ⟨hg,ho⟩ := hP op v h.1 (hr w v hw hv)
    exact ⟨hg,fun x v' hx => ih x (h.2 x) (ho x v' hx)⟩

end

variable (f : (op : Op) → Ans op → Nat)

def Moment.tally (i : Nat) (n : Nat) (m : Moment C Op Ans W R) : Nat :=
  match m.event with
  | .start j _ => if j = i then 0 else n
  | .did j _ op x => if j = i then n+f op x else n
  | _ => n

def performed (i : Nat) (ms : List (Moment C Op Ans W R)) : Nat :=
  ms.foldl (Moment.tally f i) 0

def weight (es : List (Exchange Op Ans W)) : Nat :=
  es.foldr (fun e n => n+f e.op e.answer) 0

variable {f}

theorem performed_eq_weight (i : Nat) (ms : List (Moment C Op Ans W R)) :
    performed f i ms = weight f (own i ms) := by
  induction ms using List.reverseRecOn with
  | nil => rfl
  | append_singleton _ m ih =>
    rw [performed,own,List.foldl_append,List.foldl_append,List.foldl_cons,List.foldl_cons]
    rw [performed,own] at ih
    rw [ih,Moment.tally,Moment.own]
    cases m.event <;> simp only [List.foldl_nil] <;> split <;> rfl

theorem Tally.recorded {A : Exchange Op Ans W → Prop} {Q : Nat → α → Prop} {p : Program Op Ans α}
    {es : List (Exchange Op Ans W)} (h : Tally f Q p (weight f es)) :
    Safe (recording A) (fun a es => Q (weight f es) a) p es := by
  induction p generalizing es with
  | ret => exact recording_ret h
  | ask _ _ ih => exact recording_ask fun w x _ _ => ih x (h x)

variable {M : Machine C Op Ans W R} {Q : C → Nat → R → Prop} {P : C → Op → Prop}
  {d c : Config C Op Ans W R} {ms : List (Moment C Op Ans W R)}

theorem Machine.Run.heeds_from {S} (hS : ∀ i op w x w', M.outcome i op w x w' → S op x)
    (hP : ∀ i call w, M.begins i call w → Heeds S (P call) (M.code call)) (h : M.Run c ms d)
    (hc : ∀ i call p, c.thread i = some (call,p) → Heeds S (P call) p) :
    (∀ i call p, d.thread i = some (call,p) → Heeds S (P call) p) ∧
    ∀ m ∈ ms, ∀ i call op x, m.event = .did i call op x → P call op := by
  refine h.inv (I := fun c => ∀ i call p, c.thread i = some (call,p) → Heeds S (P call) p)
    hc fun c m d hi hs => ?_
  have keep {j} {t} {v}
      (ht : ∀ call p, t = some (call,p) → Heeds S (P call) p) (i : Nat) (call : C)
      (p : Program Op Ans R) (hp : (c.set j t v).thread i = some (call,p)) :
      Heeds S (P call) p := by
    by_cases hij : i = j
    · subst hij
      exact ht call p (by simpa [Config.set] using hp)
    · exact hi i call p (by simpa [Config.set,Function.update_of_ne hij] using hp)
  cases hs with
  | @start j call ht hb =>
    refine ⟨keep fun call p h => ?_,by simp⟩
    cases h
    exact hP j call _ hb
  | @did j call op next x w ht ho =>
    have hask := hi j call _ ht
    refine ⟨keep fun call p h => ?_,fun i call op x h => ?_⟩
    · cases h
      exact hask.2 x (hS j op _ x w ho)
    · cases h
      exact hask.1
  | finish | crash => exact ⟨keep (by simp),by simp⟩
  | env => exact ⟨hi,by simp⟩

theorem Machine.Run.asks_from (hP : ∀ i call w, M.begins i call w → Asks (P call) (M.code call))
    (h : M.Run c ms d) (hc : ∀ i call p, c.thread i = some (call,p) → Asks (P call) p) :
    (∀ i call p, d.thread i = some (call,p) → Asks (P call) p) ∧
    ∀ m ∈ ms, ∀ i call op x, m.event = .did i call op x → P call op := by
  obtain ⟨hd,hms⟩ := h.heeds_from (fun _ _ _ _ _ _ => trivial)
    (fun i call w hb => heeds_of_asks (hP i call w hb))
    fun i call p ht => heeds_of_asks (hc i call p ht)
  exact ⟨fun i call p ht => (hd i call p ht).asks,hms⟩

theorem Machine.Run.asks (hP : ∀ call, Asks (P call) (M.code call)) {w : W}
    (h : M.Run (Config.idle w) ms c) :
    (∀ i call p, c.thread i = some (call,p) → Asks (P call) p) ∧
    ∀ m ∈ ms, ∀ i call op x, m.event = .did i call op x → P call op :=
  h.asks_from (fun _ call _ _ => hP call) (by simp [Config.idle])

end Interaction
