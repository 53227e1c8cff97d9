import TinyAgents.Interaction.Traces

namespace Interaction

variable {Op : Type} {Ans : Op → Type} {W α β ε : Type}

inductive Executes (outcome : (op : Op) → W → Ans op → W → Prop) :
    Program Op Ans α → W → α → W → Prop
  | ret (a : α) (w : W) : Executes outcome (.ret a) w a w
  | ask {op : Op} {next : Ans op → Program Op Ans α} {w v u : W} {x : Ans op} {a : α}
      (ho : outcome op w x v) (h : Executes outcome (next x) v a u) :
      Executes outcome (.ask op next) w a u

inductive Reaches (outcome : (op : Op) → W → Ans op → W → Prop) :
    Program Op Ans α → W → Program Op Ans α → W → Prop
  | refl (p : Program Op Ans α) (w : W) : Reaches outcome p w p w
  | ask {op : Op} {next : Ans op → Program Op Ans α} {w v u : W} {x : Ans op}
      {q : Program Op Ans α} (ho : outcome op w x v) (h : Reaches outcome (next x) v q u) :
      Reaches outcome (.ask op next) w q u

def alone (outcome : (op : Op) → W → Ans op → W → Prop) (guar : Op → W → Prop) :
    Logic Op Ans W where
  outcome := outcome
  rely := Eq
  guar := guar
  rely_refl := fun _ => rfl
  rely_trans := fun _ _ _ => Eq.trans

variable {outcome : (op : Op) → W → Ans op → W → Prop} {guar : Op → W → Prop} {Q : α → W → Prop}
  {op : Op} {p : Program Op Ans α} {w v : W} {a : α} {f : α → Fallible Op Ans ε β}
  {P : α → W → Prop} {next : Ans op → Program Op Ans α}

theorem Executes.safe (h : Executes outcome p w a v) (hs : Safe (alone outcome guar) Q p w) :
    Q a v := by
  induction h with
  | ret _ w => exact hs w rfl
  | ask ho _ ih => exact ih ((hs _ rfl).2 _ _ ho)

theorem Executes.yields {S} {R : α → Prop} (hS : ∀ op w x v, outcome op w x v → S op x)
    (h : Executes outcome p w a v) (hp : Yields S R p) : R a := by
  induction h with
  | ret => exact hp
  | ask ho _ ih => exact ih (hp _ (hS _ _ _ _ ho))

theorem executes_bind {f} {u : W} {b : β} (h : Executes outcome (p >>= f) w b u) :
    ∃ a v, Executes outcome p w a v ∧ Executes outcome (f a) v b u := by
  induction p generalizing w with
  | ret a => exact ⟨a,w,.ret a w,h⟩
  | ask _ _ ih =>
    cases h with
    | ask ho h =>
      obtain ⟨a,v,hp,hf⟩ := ih _ h
      exact ⟨a,v,.ask ho hp,hf⟩

theorem executes_lifted {u : W} {b} (h : Executes outcome (ExceptT.lift p >>= f).run w b u) :
    ∃ a v, Executes outcome p w a v ∧ Executes outcome (f a).run v b u := by
  obtain ⟨r,v,hl,hf⟩ := executes_bind h
  obtain ⟨a,_,hp,hr⟩ := executes_bind hl
  cases hr
  exact ⟨a,v,hp,hf⟩

theorem Reaches.guards (h : Reaches outcome p w (.ask op next) v)
    (hs : Safe (alone outcome guar) Q p w) : guar op v := by
  generalize hq : Program.ask op next = q at h
  induction h with
  | refl _ w =>
    subst hq
    exact (hs w rfl).1
  | ask ho _ ih => exact ih ((hs _ rfl).2 _ _ ho) hq

theorem Reaches.map {W' : Type} {outcome'} {f : W → W'}
    (hf : ∀ op w x v, outcome op w x v → outcome' op (f w) x (f v)) {q}
    (h : Reaches outcome p w q v) : Reaches outcome' p (f w) q (f v) := by
  induction h with
  | refl p w => exact .refl p (f w)
  | ask ho _ ih => exact .ask (hf _ _ _ _ ho) ih

theorem alone_ret (h : Q a w) : Safe (alone outcome guar) Q (.ret a) w := by
  rintro _ rfl
  exact h

section

variable (hg : guar op w) (h : ∀ x v, outcome op w x v → Safe (alone outcome guar) Q (next x) v)

include hg h

theorem alone_ask : Safe (alone outcome guar) Q (.ask op next) w := by
  rintro _ rfl
  exact ⟨hg,h⟩

theorem alone_perform : Safe (alone outcome guar) Q (Program.perform op >>= next) w :=
  alone_ask hg h

end

theorem alone_lift {next : Ans op → Fallible Op Ans ε β} {Q : Except ε β → W → Prop}
    (hg : guar op w) (h : ∀ x v, outcome op w x v → Safe (alone outcome guar) Q (next x).run v) :
    Safe (alone outcome guar) Q (ExceptT.lift (Program.perform op) >>= next).run w :=
  alone_ask hg h

theorem alone_lifted {Q : Except ε β → W → Prop} {next : α → Fallible Op Ans ε β}
    (hp : Safe (alone outcome guar) P p w)
    (h : ∀ a v, P a v → Safe (alone outcome guar) Q (next a).run v) :
    Safe (alone outcome guar) Q (ExceptT.lift p >>= next).run w := by
  have hl : Safe (alone outcome guar) (fun x v => ∃ a, x = .ok a ∧ P a v)
      (ExceptT.lift p : Fallible Op Ans ε α).run w :=
    safe_bind (fun a v hv => alone_ret ⟨a,rfl,hv⟩) hp
  refine safe_bind (fun x v hx => ?_) hl
  obtain ⟨a,rfl,hv⟩ := hx
  exact h a v hv

theorem alone_then {P : Except ε α → W → Prop} {Q : Except ε β → W → Prop} {p : Fallible Op Ans ε α}
    {next : α → Fallible Op Ans ε β} (hp : Safe (alone outcome guar) P p.run w)
    (he : ∀ e v, P (.error e) v → Q (.error e) v)
    (h : ∀ a v, P (.ok a) v → Safe (alone outcome guar) Q (next a).run v) :
    Safe (alone outcome guar) Q (p >>= next).run w := by
  change Safe (alone outcome guar) Q (p.run >>= _) w
  refine safe_bind (fun x v hx => ?_) hp
  cases x with
  | ok a => exact h a v hx
  | error e => exact alone_ret (he e v hx)

theorem alone_keeps {P : Op → Prop} {I : W → Prop} (h : Asks P p) (hg : ∀ op w, P op → guar op w)
    (hP : ∀ op w x v, P op → I w → outcome op w x v → I v) (hw : I w) :
    Safe (alone outcome guar) (fun _ => I) p w :=
  safe_of_asks (fun _ _ hw he => he ▸ hw)
    (fun op w hop hw => ⟨hg op w hop,fun x v ho => hP op w x v hop hw ho⟩) h hw

theorem alone_mono {outcome'} (ho : ∀ op w x v, outcome' op w x v → outcome op w x v)
    (h : Safe (alone outcome guar) Q p w) : Safe (alone outcome' guar) Q p w := by
  induction p generalizing w with
  | ret => exact h
  | ask op _ ih =>
    exact fun v hv => ⟨(h v hv).1,fun x u hx => ih x ((h v hv).2 x u (ho op v x u hx))⟩

theorem safe_and {L} {R} (h : Safe L Q p w) (k : Safe L R p w) :
    Safe L (fun a w => Q a w ∧ R a w) p w := by
  induction p generalizing w with
  | ret => exact fun v hv => ⟨h v hv,k v hv⟩
  | ask _ _ ih =>
    exact fun v hv => ⟨(h v hv).1,fun x u ho => ih x ((h v hv).2 x u ho) ((k v hv).2 x u ho)⟩

def Possibly (outcome : (op : Op) → W → Ans op → W → Prop) (Q : α → W → Prop) (p : Program Op Ans α)
    (w : W) : Prop :=
  ∃ a v, Executes outcome p w a v ∧ Q a v

theorem possibly_ret (h : Q a w) : Possibly outcome Q (.ret a) w :=
  ⟨a,w,.ret a w,h⟩

theorem possibly_ask (x : Ans op) (ho : outcome op w x v) (h : Possibly outcome Q (next x) v) :
    Possibly outcome Q (.ask op next) w := by
  obtain ⟨a,u,hx,hq⟩ := h
  exact ⟨a,u,.ask ho hx,hq⟩

theorem possibly_bind {P : β → W → Prop} {p} {f} (h : Possibly outcome P p w)
    (hf : ∀ b v, P b v → Possibly outcome Q (f b) v) : Possibly outcome Q (p >>= f) w := by
  obtain ⟨b,v,hp,hP⟩ := h
  induction hp with
  | ret b w => exact hf b w hP
  | ask ho _ ih => exact possibly_ask _ ho (ih hP)

theorem possibly_lifted {Q} (h : Possibly outcome P p w)
    (hf : ∀ a v, P a v → Possibly outcome Q (f a).run v) :
    Possibly outcome Q (ExceptT.lift p >>= f).run w := by
  have hl : Possibly outcome (fun r v => ∃ a, r = .ok a ∧ P a v)
      (ExceptT.lift p : Fallible Op Ans ε α).run w :=
    possibly_bind h fun a v ha => possibly_ret ⟨a,rfl,ha⟩
  refine possibly_bind hl ?_
  rintro _ v ⟨a,rfl,ha⟩
  exact hf a v ha

theorem possibly_try {Q} {p} (h : Possibly outcome (fun r v => ∃ a, r = .ok a ∧ P a v) p.run w)
    (hf : ∀ a v, P a v → Possibly outcome Q (f a).run v) : Possibly outcome Q (p >>= f).run w := by
  refine possibly_bind h ?_
  rintro _ v ⟨a,rfl,ha⟩
  exact hf a v ha

namespace Program

def play (perform : (op : Op) → W → Option (Ans op × W)) : Program Op Ans α → W → Option (α × W)
  | ret a, w => some (a,w)
  | ask op next, w => (perform op w).bind fun (x,v) => (next x).play perform v

variable {perform : (op : Op) → W → Option (Ans op × W)}

theorem executes_of_play (hp : ∀ op w x v, perform op w = some (x,v) → outcome op w x v)
    (h : p.play perform w = some (a,v)) : Executes outcome p w a v := by
  induction p generalizing w with
  | ret =>
    cases h
    exact .ret _ _
  | ask op _ ih =>
    obtain ⟨⟨x,u⟩,hx,h⟩ := Option.bind_eq_some_iff.1 h
    exact .ask (hp op w x u hx) (ih x h)

def playUntil (perform : (op : Op) → W → Option (Ans op × W)) (stop : Op → W → Bool) :
    Program Op Ans α → W → Option (Program Op Ans α × W)
  | ret _, _ => none
  | ask op next, w =>
    if stop op w then some (ask op next,w)
    else (perform op w).bind fun (x,v) => (next x).playUntil perform stop v

theorem reaches_of_playUntil {stop} (hp : ∀ op w x v, perform op w = some (x,v) → outcome op w x v)
    (h : (p.playUntil perform stop w).isSome) :
    ∃ op next v, Reaches outcome p w (.ask op next) v ∧ stop op v := by
  induction p generalizing w with
  | ret => cases h
  | ask op next ih =>
    rw [playUntil] at h
    split at h
    next hs => exact ⟨op,next,w,.refl _ _,hs⟩
    · obtain ⟨q,hq⟩ := Option.isSome_iff_exists.1 h
      obtain ⟨⟨x,u⟩,hx,hq⟩ := Option.bind_eq_some_iff.1 hq
      obtain ⟨op',next',v,hr,hs⟩ := ih x (Option.isSome_iff_exists.2 ⟨q,hq⟩)
      exact ⟨op',next',v,.ask (hp op w x u hx) hr,hs⟩

end Program

end Interaction
