import TinyAgents.Interaction.Traces

namespace Interaction

variable {Op : Type} {Ans : Op → Type} {W α : Type}

-- A program that is given up as soon as `check` says so: before each request and at its end.
def Program.watched (check : Op) (lost : Ans check → Bool) (stop : α) :
    Program Op Ans α → Program Op Ans α
  | .ret a => .ask check fun x => if lost x then .ret stop else .ret a
  | .ask op next => .ask check fun x =>
    if lost x then .ret stop else .ask op fun y => (next y).watched check lost stop

variable {L : Logic Op Ans W} {check : Op} {lost : Ans check → Bool} {stop : α} {K : W → Prop}
  {Q : α → W → Prop} {p : Program Op Ans α}

section

variable (hK : Stable L K) (hcheck : ∀ w, K w → L.guar check w ∧ ∀ x w', L.outcome check w x w' →
  w' = w) (hstop : ∀ w, K w → Q stop w)

include hK hcheck hstop

theorem safe_checked {w : W} (hw : K w) (h : ∀ v, K v → L.rely w v → Safe L Q p v) :
    Safe L Q (.ask check fun x => if lost x then .ret stop else p) w := by
  intro v hv
  have hkv := hK w v hv hw
  refine ⟨(hcheck v hkv).1,fun x v' hx => ?_⟩
  obtain rfl := (hcheck v hkv).2 x v' hx
  dsimp only
  split
  · exact fun u hu => hstop u (hK _ u hu hkv)
  · exact h _ hkv hv

theorem safe_watched
    (hkeeps : Asks (fun op => ∀ w x w', K w → L.guar op w → L.outcome op w x w' → K w') p) :
    ∀ {w : W}, K w → Safe L Q p w → Safe L Q (p.watched check lost stop) w := by
  induction p with
  | ret =>
    intro w hw h
    exact safe_checked hK hcheck hstop hw fun v _ hv => safe_rely h hv
  | ask _ _ ih =>
    intro w hw h
    refine safe_checked hK hcheck hstop hw fun v hkv hv => ?_
    intro u hu
    have hku := hK v u hu hkv
    obtain ⟨hg,hnext⟩ := h u (L.rely_trans _ _ _ hv hu)
    refine ⟨hg,fun x u' hx => ?_⟩
    exact ih x (hkeeps.2 x) (hkeeps.1 u x u' hku hg hx) (hnext x u' hx)

end

theorem safe_unwatched
    (hcheck : ∀ w, L.guar check w ∧ ∀ x w', L.outcome check w x w' → lost x = false ∧ w' = w)
    {w : W} (h : Safe L Q p w) : Safe L Q (p.watched check lost stop) w := by
  induction p generalizing w with
  | ret =>
    intro v hv
    refine ⟨(hcheck v).1,fun x v' hx => ?_⟩
    obtain ⟨hl,rfl⟩ := (hcheck v).2 x v' hx
    simp only [hl,Bool.false_eq_true,if_false]
    exact safe_rely h hv
  | ask _ _ ih =>
    intro v hv
    refine ⟨(hcheck v).1,fun x v' hx => ?_⟩
    obtain ⟨hl,rfl⟩ := (hcheck v).2 x v' hx
    simp only [hl,Bool.false_eq_true,if_false]
    intro u hu
    obtain ⟨hg,hn⟩ := h u (L.rely_trans _ _ _ hv hu)
    exact ⟨hg,fun y u' hy => ih y (hn y u' hy)⟩

theorem asks_watched {P : Op → Prop} (hcheck : P check) (h : Asks P p) :
    Asks P (p.watched check lost stop) := by
  induction p with
  | ret =>
    refine ⟨hcheck,fun x => ?_⟩
    dsimp only
    split
    all_goals trivial
  | ask _ _ ih =>
    refine ⟨hcheck,fun x => ?_⟩
    dsimp only
    split
    · trivial
    · exact ⟨h.1,fun y => ih y (h.2 y)⟩

end Interaction
