import MarkovSim.Proofs.Session.Fault
import MarkovSim.Proofs.Session.Safety

/-!
# Sessions over an engine that gives up

A faltering engine is the engine inside it for as long as the moves it is asked for are allowed
(`Faltering.apply_of_room`), and refuses every one after that without moving (`Faltering.apply_of_spent`).
So a session over it goes through the same answers and states as the session over the engine inside, and
its count is the number of steps and random moves that were made (`Session.Safe.run_faltering`). The first
one beyond that faults it (`Session.handle_of_spent`), and a fault leaves the engine as it is
(`Session.run_of_faulted`).

Take a validated model, and beside a session that walks it the session of the same seed over an engine that
gives up after `k` moves.

1. Up to `k` steps and random moves made by the one, the other gives the same answers to all requests and
   is the same session but for the count of its engine, so that it also answers questions alike. The
   count is the number of those moves: nothing that is turned down is counted, no restart and no change
   of settings.
2. The next step or random move that the one makes is turned down by the other for a failure of the
   engine, which names the call and the state before it, and the walk does not move. From then on, whatever
   is asked, every move is turned down for the fault, the walk stays where it is and the count at `k + 1`.
3. A run with more such moves than `k` comes to one that is made after exactly `k`.
-/

namespace MarkovSim

/-! ## Counting moves -/

/-- The call that a request makes to the engine if it is not turned down. Restarts and changes of settings
make none that could fail. -/
def Request.call? : Request → Option EngineCall
  | .move (.step _) => some .step
  | .move .wander => some .wander
  | _ => none

/-- Whether the request is a step or a random move and was made. -/
def Request.madeBy (r : Request) (answer : Answer) : Bool := r.call?.isSome && answer.isOk

/-- How many steps and random moves were made, by the answers to the requests. -/
def movesMade (rs : List Request) (answers : List Answer) : Nat :=
  (rs.zip answers).countP fun q => q.1.madeBy q.2

theorem movesMade_cons (r : Request) (rs : List Request) (answer : Answer) (answers : List Answer) :
    movesMade (r :: rs) (answer :: answers) =
      (r.madeBy answer).toNat + movesMade rs answers := by
  unfold movesMade
  rw [List.zip_cons_cons, List.countP_cons, Nat.add_comm]
  cases r.madeBy answer <;> rfl

/-- How many of the moves a faltering engine allows a demand takes. -/
def Demand.cost (d : Demand) : Nat := d.call?.isSome.toNat

/-! ## Engines that give up -/

namespace Faltering

variable {ε : Type} [Engine ε] {f : Faltering ε} {d : Demand}

theorem looksAlike_inner : Engine.LooksAlike (inner : Faltering ε → ε) := ⟨fun _ => rfl, fun _ => rfl⟩

/-- While moves are left, a demand is put to the engine inside and counted if it could fail. -/
theorem apply_of_room (h : f.calls + d.cost ≤ f.allowed) :
    d.apply f =
      ((d.apply f.inner).1,
        { f with inner := (d.apply f.inner).2, calls := f.calls + d.cost }) := by
  cases d with
  | restart => rfl
  | step k => exact if_pos h
  | wander => exact if_pos h

theorem apply_of_spent (h : f.allowed ≤ f.calls) {call : EngineCall} (hc : d.call? = some call) :
    d.apply f = (false, { f with calls := f.calls + 1 }) := by
  cases d with
  | restart => cases hc
  | step k => exact if_neg (Nat.not_lt.2 h)
  | wander => exact if_neg (Nat.not_lt.2 h)

end Faltering

namespace Session

/-! ## What is asked of the engine -/

section Calls

variable {ε : Type} [Engine ε] {m : Model} {s : Session ε}

theorem call?_of_demand {mv : Move} {d : Demand} (h : s.demand m mv = .ok d) :
    (Request.move mv).call? = d.call? := by
  obtain ⟨rfl, rfl⟩ | ⟨rfl, rfl⟩ | ⟨action, k, rfl, rfl, -⟩ := demand_eq_ok h
  · rfl
  · rfl
  · rfl

/-- A step or random move that was made came down to a demand on the engine. -/
theorem demand_of_madeBy {r : Request} (h : r.madeBy (s.handle m r).1 = true) :
    ∃ mv d, r = .move mv ∧ s.faulted = false ∧ s.demand m mv = .ok d ∧ d.call? = r.call? := by
  obtain ⟨hcall, hok⟩ := Bool.and_eq_true_iff.1 h
  cases r with
  | perspective p => cases hcall
  | addressing a => cases hcall
  | full value => cases hcall
  | move mv =>
    rw [handle_move] at hok
    cases hf : s.faulted with
    | true =>
      rw [perform_of_faulted hf] at hok
      cases hok
    | false =>
      cases hd : s.demand m mv with
      | error e =>
        rw [perform_of_demand_error hf hd] at hok
        cases hok
      | ok d => exact ⟨mv, d, rfl, rfl, hd, (call?_of_demand hd).symm⟩

/-- In a run with more than `k` steps and random moves one of them comes after exactly `k`. -/
theorem exists_of_lt_movesMade {rs : List Request} {k : Nat} (h : k < movesMade rs (s.run m rs).1) :
    ∃ before r later, rs = before ++ r :: later ∧ movesMade before (s.run m before).1 = k ∧
      r.madeBy ((s.run m before).2.handle m r).1 = true := by
  induction rs generalizing s k with
  | nil => cases h
  | cons r rs ih =>
    have hrun : (s.run m (r :: rs)).1 = (s.handle m r).1 :: ((s.handle m r).2.run m rs).1 := rfl
    rw [hrun, movesMade_cons] at h
    have hlater {n : Nat} (hn : n < movesMade rs ((s.handle m r).2.run m rs).1)
        (hk : (r.madeBy (s.handle m r).1).toNat + n = k) :
        ∃ before r' later, r :: rs = before ++ r' :: later ∧ movesMade before (s.run m before).1 = k ∧
          r'.madeBy ((s.run m before).2.handle m r').1 = true := by
      obtain ⟨before, r', later, hsplit, hcount, hmade⟩ := ih hn
      refine ⟨r :: before, r', later, by rw [hsplit, List.cons_append], ?_, hmade⟩
      rw [show (s.run m (r :: before)).1 = (s.handle m r).1 :: ((s.handle m r).2.run m before).1 from rfl,
        movesMade_cons, hcount, hk]
    cases hmade : r.madeBy (s.handle m r).1 with
    | false =>
      rw [hmade] at h hlater
      exact hlater (by simpa using h) (Nat.zero_add k)
    | true =>
      rw [hmade] at h hlater
      cases k with
      | zero => exact ⟨[], r, rs, rfl, rfl, hmade⟩
      | succ k => exact hlater (by simp at h; omega) (Nat.add_comm 1 k)

end Calls

/-! ## Faults -/

theorem Outcome.engine_of_faulted {ε : Type} [Engine ε] {m : Model} {s s' : Session ε} {r : Request}
    {answer : Answer} (h : Outcome m s r answer s') (hf : s.faulted = true) : s'.engine = s.engine := by
  cases h with
  | faulted => rfl
  | refused husable => rfl
  | failed husable => rw [hf] at husable; cases husable
  | unseen husable => rw [hf] at husable; cases husable
  | made husable => rw [hf] at husable; cases husable
  | kept => rfl
  | switched hs => exact (setting_frame hs).1

/-- A fault is for good: the engine stays as it is, and every move is turned down. -/
theorem run_of_faulted {ε : Type} [Engine ε] {m : Model} {s : Session ε} (h : s.faulted = true)
    (rs : List Request) :
    (s.run m rs).2.engine = s.engine ∧
      ∀ mv, (s.run m rs).2.handle m (.move mv) = (.error .faulted, (s.run m rs).2) := by
  induction rs generalizing s with
  | nil =>
    refine ⟨rfl, fun mv => ?_⟩
    show s.handle m (.move mv) = (.error .faulted, s)
    rw [handle_move, perform_of_faulted h]
    rfl
  | cons r rs ih =>
    have ho := handle_outcome m s r
    obtain ⟨hrest, hmoves⟩ := ih (ho.faulted_of_faulted h)
    exact ⟨hrest.trans (ho.engine_of_faulted h), hmoves⟩

/-- A move that the engine has none left for faults the session and moves nothing. -/
theorem handle_of_spent {ε : Type} [Engine ε] {m : Model} {s : Session (Faltering ε)}
    (hspent : s.engine.allowed ≤ s.engine.calls) (hf : s.faulted = false) {mv : Move} {d : Demand}
    (hd : s.demand m mv = .ok d) {call : EngineCall} (hc : d.call? = some call) :
    s.handle m (.move mv) =
      (.error (.engineFailed call s.current),
        { s with engine := { s.engine with calls := s.engine.calls + 1 }, faulted := true }) := by
  rw [handle_move, perform_of_demand hf hd, Faltering.apply_of_spent hspent hc, hc]
  rfl

/-! ## Alike until the moves are spent -/

section Sound

variable {d : Dynamics} (hd : d.Sound)
include hd

/-- One request, while moves are left: the same answer and session, and one more on the count if it was a
step or random move that was made. -/
theorem Safe.handle_faltering {s : Session (Faltering (Walker d))}
    (hs : (s.mapEngine Faltering.inner).Safe) {r : Request}
    (hroom : s.engine.calls +
      (r.madeBy ((s.mapEngine Faltering.inner).handle d.toModel r).1).toNat ≤ s.engine.allowed) :
    (s.mapEngine Faltering.inner).handle d.toModel r =
        ((s.handle d.toModel r).1, (s.handle d.toModel r).2.mapEngine Faltering.inner) ∧
      (s.handle d.toModel r).2.engine.calls =
        s.engine.calls + (r.madeBy ((s.mapEngine Faltering.inner).handle d.toModel r).1).toNat ∧
      (s.handle d.toModel r).2.engine.allowed = s.engine.allowed := by
  cases hr : s.setting d.toModel r with
  | some made =>
    have hcall : r.call? = none := by
      cases r with
      | move mv => cases hr
      | _ => rfl
    have hnone (answer : Answer) : r.madeBy answer = false := by rw [Request.madeBy, hcall]; rfl
    refine ⟨handle_mapEngine_of_apply Faltering.looksAlike_inner fun mv dm hmv => ?_, ?_⟩
    · rw [hmv] at hr
      cases hr
    · have hengine : (s.handle d.toModel r).2.engine = s.engine := by
        rw [handle_setting hr, change_snd, setting_engine hr]
      rw [hnone, hengine]
      exact ⟨rfl, rfl⟩
  | none =>
    obtain ⟨mv, rfl⟩ := setting_eq_none hr
    have hsame := demand_mapEngine Faltering.looksAlike_inner d.toModel s mv
    cases hdm : s.demand d.toModel mv with
    | error e =>
      have hanswer := perform_of_demand_error hs.usable (hsame.trans hdm)
      have hkept := perform_of_demand_error (s := s) hs.usable hdm
      have hnone : (Request.move mv).madeBy
          ((s.mapEngine Faltering.inner).handle d.toModel (.move mv)).1 = false := by
        rw [handle_move, hanswer, Request.madeBy]
        exact Bool.and_false _
      rw [hnone, handle_move, handle_move, hanswer, hkept]
      exact ⟨rfl, rfl, rfl⟩
    | ok dm =>
      obtain ⟨report, -, hperform⟩ := hs.perform_eq_ok hd (hsame.trans hdm)
      have hcost : ((Request.move mv).madeBy
          ((s.mapEngine Faltering.inner).handle d.toModel (.move mv)).1).toNat = dm.cost := by
        rw [handle_move, hperform, Request.madeBy, call?_of_demand hdm]
        exact congrArg Bool.toNat (Bool.and_true _)
      rw [hcost] at hroom ⊢
      have happly := Faltering.apply_of_room hroom
      refine ⟨handle_mapEngine_of_apply Faltering.looksAlike_inner fun mv' dm' hmv hdm' => ?_, ?_⟩
      · obtain rfl := Request.move.inj hmv
        obtain rfl := Except.ok.inj (hdm.symm.trans hdm')
        rw [happly]
      · rw [handle_move, perform_of_demand (s := s) hs.usable hdm, engine_afterMove, happly]
        exact ⟨rfl, rfl⟩

/-- A run with no more moves than are left goes as over the engine inside. -/
theorem Safe.run_faltering {s : Session (Faltering (Walker d))}
    (hs : (s.mapEngine Faltering.inner).Safe) {rs : List Request}
    (hroom : s.engine.calls + movesMade rs ((s.mapEngine Faltering.inner).run d.toModel rs).1 ≤
      s.engine.allowed) :
    (s.mapEngine Faltering.inner).run d.toModel rs =
        ((s.run d.toModel rs).1, (s.run d.toModel rs).2.mapEngine Faltering.inner) ∧
      (s.run d.toModel rs).2.engine.calls =
        s.engine.calls + movesMade rs ((s.mapEngine Faltering.inner).run d.toModel rs).1 ∧
      (s.run d.toModel rs).2.engine.allowed = s.engine.allowed := by
  -- The count and the session inside move together, so both vary along the induction.
  induction rs generalizing s with
  | nil => exact ⟨rfl, rfl, rfl⟩
  | cons r rs ih =>
    have hrun (t : Session (Walker d)) : t.run d.toModel (r :: rs) =
        ((t.handle d.toModel r).1 :: ((t.handle d.toModel r).2.run d.toModel rs).1,
          ((t.handle d.toModel r).2.run d.toModel rs).2) := rfl
    have hnext := (hs.outcome hd (handle_outcome d.toModel _ r)).1
    rw [hrun, movesMade_cons] at hroom ⊢
    obtain ⟨hhandle, hcalls, hallowed⟩ := hs.handle_faltering hd (r := r) (by omega)
    have hinner : ((s.mapEngine Faltering.inner).handle d.toModel r).2 =
        (s.handle d.toModel r).2.mapEngine Faltering.inner := congrArg Prod.snd hhandle
    rw [hinner] at hroom hnext ⊢
    obtain ⟨hrest, hcalls', hallowed'⟩ := ih hnext (by omega)
    refine ⟨?_, ?_, hallowed'.trans hallowed⟩
    · rw [congrArg Prod.fst hhandle, hrest]
      rfl
    · show ((s.handle d.toModel r).2.run d.toModel rs).2.engine.calls = _
      omega

end Sound

end Session

/-- A session that gives its seed to an engine which makes `k` moves of a walk and then gives up. -/
def Simulation.startFaltering (d : Dynamics) (k : Nat) (seed₀ seed : UInt64) :
    Session (Faltering (Walker d)) :=
  .startSeeded d.toModel { inner := .ofSeed d seed₀, allowed := k } seed

/-- An engine that gives up after `k` moves goes unnoticed until then. The next move faults the session, and
from then on the walk stays where it is and the count at `k + 1`. -/
theorem Simulation.faltering_unnoticed_until_spent {p : ExplicitModel} (hp : p.Validated) (k : Nat)
    (seed₀ seed : UInt64) :
    (∀ (rs : List Request) (answers : List Answer) (plain : Session (Walker p.dynamics)),
      (start p.dynamics seed).run p.dynamics.toModel rs = (answers, plain) →
      movesMade rs answers ≤ k →
      ∃ late, (startFaltering p.dynamics k seed₀ seed).run p.dynamics.toModel rs = (answers, late) ∧
        late.mapEngine Faltering.inner = plain ∧
        late.engine.calls = movesMade rs answers ∧
        late.menu p.dynamics.toModel = plain.menu p.dynamics.toModel ∧
        late.isFinished p.dynamics.toModel = plain.isFinished p.dynamics.toModel ∧
        (movesMade rs answers = k → ∀ r call, r.call? = some call →
          r.madeBy (plain.handle p.dynamics.toModel r).1 = true →
          ∃ spent, late.handle p.dynamics.toModel r =
              (.error (.engineFailed call plain.current), spent) ∧
            ∀ later answers' last, spent.run p.dynamics.toModel later = (answers', last) →
              last.engine.inner = plain.engine ∧ last.current = plain.current ∧
              last.engine.calls = k + 1 ∧
              ∀ mv, last.handle p.dynamics.toModel (.move mv) = (.error .faulted, last))) ∧
    (∀ rs : List Request,
      k < movesMade rs ((start p.dynamics seed).run p.dynamics.toModel rs).1 →
      ∃ before r later, rs = before ++ r :: later ∧
        movesMade before ((start p.dynamics seed).run p.dynamics.toModel before).1 = k ∧
        r.madeBy (((start p.dynamics seed).run p.dynamics.toModel before).2.handle
          p.dynamics.toModel r).1 = true) := by
  have hd := hp.sound
  have hinner : (startFaltering p.dynamics k seed₀ seed).mapEngine Faltering.inner =
      start p.dynamics seed := rfl
  refine ⟨fun rs answers plain hrun hmade => ?_, fun rs => Session.exists_of_lt_movesMade⟩
  have hsafe := (fresh_start p.dynamics seed).safe hd
  rw [← hinner] at hrun hsafe
  have hroom : (startFaltering p.dynamics k seed₀ seed).engine.calls + movesMade rs
      (((startFaltering p.dynamics k seed₀ seed).mapEngine Faltering.inner).run
        p.dynamics.toModel rs).1 ≤ (startFaltering p.dynamics k seed₀ seed).engine.allowed := by
    rw [hrun]
    exact (Nat.zero_add _).trans_le hmade
  obtain ⟨hsame, hcalls, hallowed⟩ := hsafe.run_faltering hd hroom
  have hplain := (hsafe.run hd rs).1
  rw [hrun] at hsame hcalls hplain
  obtain ⟨hanswers, hsession⟩ := Prod.mk.inj hsame
  generalize hlate : ((startFaltering p.dynamics k seed₀ seed).run p.dynamics.toModel rs).2 = late
    at hsession hcalls hallowed
  subst hsession
  have hcount : late.engine.calls = movesMade rs answers := hcalls.trans (Nat.zero_add _)
  refine ⟨late, Prod.ext hanswers.symm hlate, rfl, hcount,
    (Session.menu_mapEngine Faltering.looksAlike_inner _ late).symm, rfl,
    fun hk r call hcall hmade => ?_⟩
  obtain ⟨mv, dm, rfl, hf, hdm, hdc⟩ := Session.demand_of_madeBy hmade
  rw [Session.demand_mapEngine Faltering.looksAlike_inner] at hdm
  have hspent : late.engine.allowed ≤ late.engine.calls := by
    rw [hallowed, hcount, hk]
    exact Nat.le_refl k
  refine ⟨_, Session.handle_of_spent hspent hf hdm (hdc.trans hcall), fun later answers' last hlast => ?_⟩
  obtain ⟨hengine, hmoves⟩ := Session.run_of_faulted (m := p.dynamics.toModel)
    (s := { late with engine := { late.engine with calls := late.engine.calls + 1 }, faulted := true })
    rfl later
  rw [hlast] at hengine hmoves
  replace hengine : last.engine = { late.engine with calls := late.engine.calls + 1 } := hengine
  have hwalk : last.engine.inner = late.engine.inner := by rw [hengine]
  refine ⟨hwalk, congrArg Walker.current hwalk, ?_, hmoves⟩
  rw [hengine, ← hk, ← hcount]

/-- Over the process of two states that look alike an engine gives up after one move. A name that means
nothing, a restart, a change of settings and an offset that is not on offer stand around the move that is
made. The step after it fails in the state that the move led to, and a restart finds the session faulted. -/
theorem Simulation.faltering_twins_spent :
    ∃ p rs answers plain late spent, Gallery.twins = .ok p ∧ p.Validated ∧
      rs = [.move (.step (some (.name "up"))), .move .restart, .full true, .move .wander,
        .move (.step (some (.index 7)))] ∧
      (start p.dynamics 9).run p.dynamics.toModel rs = (answers, plain) ∧ movesMade rs answers = 1 ∧
      (startFaltering p.dynamics 1 5 9).run p.dynamics.toModel rs = (answers, late) ∧
      late.mapEngine Faltering.inner = plain ∧ late.engine.calls = 1 ∧
      late.handle p.dynamics.toModel (.move (.step (some (.index 0)))) =
        (.error (.engineFailed .step plain.current), spent) ∧
      ((spent.run p.dynamics.toModel [.full false]).2.handle p.dynamics.toModel (.move .restart)).1 =
        .error .faulted ∧
      (∃ before r later, rs ++ [.move (.step (some (.index 0)))] = before ++ r :: later ∧
        movesMade before ((start p.dynamics 9).run p.dynamics.toModel before).1 = 1) := by
  have hfacts : Gallery.twins.toOption.map (fun p =>
      let rs : List Request := [.move (.step (some (.name "up"))), .move .restart, .full true,
        .move .wander, .move (.step (some (.index 7)))]
      let r : Request := .move (.step (some (.index 0)))
      let whole := (start p.dynamics 9).run p.dynamics.toModel rs
      (movesMade rs whole.1, r.madeBy (whole.2.handle p.dynamics.toModel r).1,
        movesMade (rs ++ [r]) ((start p.dynamics 9).run p.dynamics.toModel (rs ++ [r])).1)) =
      some (1, true, 2) := by
    decide +kernel
  obtain ⟨p, htwins, hp, -⟩ := Gallery.twins_validated
  rw [htwins] at hfacts
  obtain ⟨hone, hrest⟩ := Prod.mk.inj (Option.some.inj hfacts)
  obtain ⟨hmade, htwo⟩ := Prod.mk.inj hrest
  obtain ⟨halike, hexists⟩ := faltering_unnoticed_until_spent hp 1 5 9
  obtain ⟨late, hrun, hinner, hcalls, -, -, hspent⟩ := halike _ _ _ (Prod.eta _).symm hone.le
  obtain ⟨spent, hhandle, hstuck⟩ := hspent hone _ _ rfl hmade
  obtain ⟨-, -, -, hfaulted⟩ := hstuck [.full false] _ _ (Prod.eta _).symm
  obtain ⟨before, r, later, hsplit, hcount, -⟩ := hexists _ (Nat.lt_of_lt_of_eq Nat.one_lt_two htwo.symm)
  exact ⟨p, _, _, _, late, spent, htwins, hp, rfl, (Prod.eta _).symm, hone, hrun, hinner,
    hcalls.trans hone, hhandle, congrArg Prod.fst (hfaulted .restart), before, r, later, hsplit, hcount⟩

end MarkovSim
