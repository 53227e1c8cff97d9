import Mathlib.Algebra.GroupWithZero.Nat

namespace Interaction

inductive Program (Op : Type) (Ans : Op → Type) (α : Type) where
  | ret (a : α)
  | ask (op : Op) (next : Ans op → Program Op Ans α)

namespace Program

variable {Op : Type} {Ans : Op → Type} {α β ε : Type}

def bind : Program Op Ans α → (α → Program Op Ans β) → Program Op Ans β
  | ret a, f => f a
  | ask op next, f => ask op (fun x => (next x).bind f)

instance : Monad (Program Op Ans) where
  pure := ret
  bind := bind

def perform (op : Op) : Program Op Ans (Ans op) :=
  ask op ret

def embed {Op' : Type} {Ans' : Op' → Type} (f : Op → Op') (g : ∀ op, Ans' (f op) → Ans op) :
    Program Op Ans α → Program Op' Ans' α
  | ret a => ret a
  | ask op next => ask (f op) (fun x => (next (g op x)).embed f g)

end Program

theorem ok_of_bind {ε α β : Type} {x : Except ε α} {f} {b : β} (h : x >>= f = .ok b) :
    ∃ a, x = .ok a ∧ f a = .ok b := by
  cases x with
  | error => cases h
  | ok a => exact ⟨a,rfl,h⟩

abbrev Fallible (Op : Type) (Ans : Op → Type) (ε : Type) :=
  ExceptT ε (Program Op Ans)

def Fallible.ofExcept {Op : Type} {Ans : Op → Type} {ε α : Type} (x : Except ε α) :
    Fallible Op Ans ε α :=
  ExceptT.mk (.ret x)

structure Logic (Op : Type) (Ans : Op → Type) (W : Type) where
  outcome : (op : Op) → W → Ans op → W → Prop
  rely : W → W → Prop
  guar : Op → W → Prop
  rely_refl : ∀ w, rely w w
  rely_trans : ∀ u v w, rely u v → rely v w → rely u w

variable {Op : Type} {Ans : Op → Type} {W α β ε : Type} (L : Logic Op Ans W) (Q : α → W → Prop)

def Safe : Program Op Ans α → W → Prop
  | .ret a, w => ∀ w', L.rely w w' → Q a w'
  | .ask op next, w => ∀ w', L.rely w w' →
      L.guar op w' ∧ ∀ x w'', L.outcome op w' x w'' → Safe (next x) w''

def Ends (E : ε → W → Prop) : Except ε α → W → Prop
  | .ok a => Q a
  | .error e => E e

abbrev Ensures (E : ε → W → Prop) (p : Fallible Op Ans ε α) : W → Prop :=
  Safe L (Ends Q E) p.run

abbrev Maintains (K : W → Prop) (p : Fallible Op Ans ε α) : W → Prop :=
  Ensures L (fun _ => K) (fun _ => K) p

variable {L} {w : W} {f : α → Fallible Op Ans ε β} {Q : α → W → Prop} {Q' : β → W → Prop}
  {E : ε → W → Prop}

theorem safe_rely {p} {v : W} (h : Safe L Q p w) (hr : L.rely w v) : Safe L Q p v := by
  cases p with
  | ret | ask => exact fun w' hw' => h w' (L.rely_trans _ _ _ hr hw')

theorem safe_mono {R} (hQ : ∀ a w, Q a w → R a w) : ∀ {p} {w : W}, Safe L Q p w → Safe L R p w := by
  intro p
  induction p with
  | ret a => exact fun h w' hw' => hQ a w' (h w' hw')
  | ask _ _ ih =>
    intro w h w' hw'
    exact ⟨(h w' hw').1,fun x w'' hx => ih x ((h w' hw').2 x w'' hx)⟩

theorem safe_ends {R} {F} {p} (hQ : ∀ a w, Q a w → R a w) (hE : ∀ e w, E e w → F e w)
    (h : Safe L (Ends Q E) p w) : Safe L (Ends R F) p w := by
  refine safe_mono ?_ h
  rintro (e | a) v hv
  · exact hE e v hv
  · exact hQ a v hv

theorem ends_const {K : W → Prop} {x : Except ε α} (h : K w) :
    Ends (fun _ => K) (fun _ => K) x w := by
  cases x <;> exact h

theorem safe_bind {f} (hf : ∀ a w, Q a w → Safe L Q' (f a) w) :
    ∀ {p} {w : W}, Safe L Q p w → Safe L Q' (p >>= f) w := by
  intro p
  induction p with
  | ret a => exact fun {w} h => hf a w (h w (L.rely_refl w))
  | ask _ _ ih =>
    intro w h w' hw'
    exact ⟨(h w' hw').1,fun x w'' hx => ih x ((h w' hw').2 x w'' hx)⟩

theorem safe_perform_bind {op : Op} {f} (h : ∀ w', L.rely w w' → L.guar op w' ∧ ∀ x w'',
    L.outcome op w' x w'' → Safe L Q (f x) w'') : Safe L Q (Program.perform op >>= f) w := h

theorem safe_try {p} (h : Safe L (Ends Q E) p.run w)
    (hf : ∀ a w, Q a w → Safe L (Ends Q' E) (f a).run w) : Safe L (Ends Q' E) (p >>= f).run w := by
  change Safe L (Ends Q' E) (p.run.bind _) w
  generalize p.run = p at h
  induction p generalizing w with
  | ret r =>
    cases r with
    | ok a => exact hf a w (h w (L.rely_refl w))
    | error => exact h
  | ask _ _ ih =>
    intro w' hw'
    exact ⟨(h w' hw').1,fun x w'' hx => ih x ((h w' hw').2 x w'' hx)⟩

theorem safe_ofExcept {Q} {x} (h : ∀ a, x = .ok a → Safe L Q (f a).run w)
    (he : ∀ e, x = .error e → Safe L Q (.ret (.error e)) w) :
    Safe L Q (Fallible.ofExcept x >>= f).run w := by
  cases x with
  | ok a => exact h a rfl
  | error e => exact he e rfl

theorem safe_seq {E'} {p} (h : Safe L (Ends Q E) p.run w) (hE : ∀ e w, E e w → E' e w)
    (hf : ∀ a w, Q a w → Safe L (Ends Q' E') (f a).run w) : Safe L (Ends Q' E') (p >>= f).run w :=
  safe_try (safe_ends (fun _ _ h => h) hE h) hf

variable (L) in
def Stable (P : W → Prop) : Prop := ∀ w w', L.rely w w' → P w → P w'

theorem Stable.and {P Q : W → Prop} (hP : Stable L P) (hQ : Stable L Q) :
    Stable L fun w => P w ∧ Q w :=
  fun w w' hr h => ⟨hP w w' hr h.1,hQ w w' hr h.2⟩

theorem safe_done {a : α} (hQ : Stable L (Q a)) (hw : Q a w) : Safe L Q (.ret a) w :=
  fun w' hr => hQ w w' hr hw

theorem safe_ok {a : α} (hQ : Stable L (Q a)) (hw : Q a w) : Safe L (Ends Q E) (.ret (.ok a)) w :=
  fun w' hr => hQ w w' hr hw

theorem safe_error {e : ε} (hE : Stable L (E e)) (hw : E e w) :
    Safe L (Ends Q E) (.ret (.error e)) w :=
  fun w' hr => hE w w' hr hw

theorem safe_lift {Q : Except ε α → W → Prop} {op : Op} {f : Ans op → Fallible Op Ans ε α}
    {P : W → Prop} (hP : Stable L P) (hw : P w) (hg : ∀ v, P v → L.guar op v)
    (h : ∀ v x v', P v → L.outcome op v x v' → Safe L Q (f x).run v') :
    Safe L Q ((ExceptT.lift (Program.perform op) : Fallible Op Ans ε (Ans op)) >>= f).run w :=
  fun w' hr => ⟨hg w' (hP w w' hr hw),fun x v' hx => h w' x v' (hP w w' hr hw) hx⟩

theorem safe_frame {I : W → Prop} (hI : Stable L I)
    (ho : ∀ op w x w', L.outcome op w x w' → I w → I w') :
    ∀ {p} {w : W}, Safe L (Ends Q E) p w → I w → Safe L (Ends (fun a w => Q a w ∧ I w) E) p w := by
  intro p
  induction p with
  | ret r =>
    intro w h hi w' hw'
    cases r with
    | ok => exact ⟨h w' hw',hI w w' hw' hi⟩
    | error => exact h w' hw'
  | ask op _ ih =>
    intro w h hi w' hw'
    refine ⟨(h w' hw').1,fun x w'' hx => ?_⟩
    exact ih x ((h w' hw').2 x w'' hx) (ho op w' x w'' hx (hI w w' hw' hi))

theorem safe_embed {Op' : Type} {Ans' : Op' → Type} {W' : Type} {L' : Logic Op' Ans' W'}
    {f : Op → Op'} {g : ∀ op, Ans' (f op) → Ans op} (view : W' → W) {I : W' → Prop}
    (hrely : ∀ w w', L'.rely w w' → L.rely (view w) (view w'))
    (hguar : ∀ op w, L.guar op (view w) → L'.guar (f op) w)
    (hout : ∀ op w x w', L.guar op (view w) → L'.outcome (f op) w x w' →
      L.outcome op (view w) (g op x) (view w') ∧ (I w → I w'))
    (hI : ∀ w w', L'.rely w w' → I w → I w') :
    ∀ {p : Program Op Ans α} {w : W'}, Safe L Q p (view w) → I w →
    Safe L' (fun a w => Q a (view w) ∧ I w) (p.embed f g) w := by
  intro p
  induction p with
  | ret => exact fun h hi w' hw' => ⟨h _ (hrely _ _ hw'),hI _ _ hw' hi⟩
  | ask op _ ih =>
    intro w h hi w' hw'
    obtain ⟨hg,hn⟩ := h _ (hrely _ _ hw')
    refine ⟨hguar op w' hg,fun x w'' hx => ?_⟩
    obtain ⟨ho,hkeep⟩ := hout op w' x w'' hg hx
    exact ih (g op x) (hn _ _ ho) (hkeep (hI _ _ hw' hi))

theorem safe_view {W' : Type} {L'} (view : W' → W)
    (hrely : ∀ w w', L'.rely w w' → L.rely (view w) (view w'))
    (hguar : ∀ op w, L.guar op (view w) → L'.guar op w)
    (hout : ∀ op w x w', L'.outcome op w x w' → L.outcome op (view w) x (view w')) :
    ∀ {p} {w : W'}, Safe L Q p (view w) → Safe L' (fun a w => Q a (view w)) p w := by
  intro p
  induction p with
  | ret => exact fun h w' hw' => h _ (hrely _ _ hw')
  | ask op _ ih =>
    intro w h w' hw'
    obtain ⟨hg,hn⟩ := h _ (hrely _ _ hw')
    exact ⟨hguar op w' hg,fun x w'' hx => ih x (hn _ _ (hout op w' x w'' hx))⟩

end Interaction
