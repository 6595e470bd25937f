import MarkovSim.Proofs.Session.Safety

/-!
# Trajectories

What a run does to its engine is a list of demands, one for each move that was made. Everything else
that is asked, whether it is granted or not, leaves the engine alone (`Safe.handle_passage`). So the
passages of a run are the trail of its demands from where the engine stood (`Safe.passages_run`), and
runs from the same seed with the same demands pass through the same states with the same rewards.
-/

namespace MarkovSim

/-- A move that was made: what it came down to, the state it led to and the reward reported. -/
structure Passage where
  demand : Demand
  state : Nat
  reward : Float

namespace Session

variable {ε : Type} [Engine ε]

/-- What a move comes down to: an index stands for itself, an action left out for the first, and a
name for the first place where the menu lists it. -/
def reduced (m : Model) (s : Session ε) : Move → Demand
  | .restart => .restart
  | .wander => .wander
  | .step none => .step 0
  | .step (some (.index k)) => .step k
  | .step (some (.name l)) =>
    match s.menu m with
    | .ok menu => .step (menu.toList.idxOf (.name l))
    | .error _ => .step 0

/-- The passage of a request that is a move and was made. -/
def passage? (m : Model) (s : Session ε) (r : Request) : Option Passage :=
  match r, s.handle m r with
  | .move mv, (.ok (some report), s') => some ⟨s.reduced m mv, s'.current, report.reward⟩
  | _, _ => none

def passages (m : Model) (s : Session ε) : List Request → List Passage
  | [] => []
  | r :: rest => (s.passage? m r).toList ++ passages m (s.handle m r).2 rest

theorem passage?_of_setting {m : Model} {s : Session ε} {r : Request}
    {made : Except Refusal Unit × Session ε} (h : s.setting m r = some made) :
    s.passage? m r = none := by
  cases r with
  | move mv => cases h
  | perspective p => rfl
  | addressing a => rfl
  | full value => rfl

/-! ## Moves and what they come down to -/

theorem idxOf_map_name (names : List String) (l : String) :
    (names.map Action.name).idxOf (.name l) = names.idxOf l := by
  have hsame : (· == Action.name l) ∘ Action.name = (· == l) := by
    funext x
    rw [Bool.eq_iff_iff]
    simp
  unfold List.idxOf
  rw [List.findIdx_map, hsame]

theorem Addressed.reduced_eq {m : Model} {s : Session ε} {action : Option Action} {k : Nat}
    (h : Addressed m s action k) : s.reduced m (.step action) = .step k := by
  cases h with
  | omitted => rfl
  | index => rfl
  | @name l names k haddress hnames hidx =>
    have hmenu : s.menu m = .ok (.names names) := by
      unfold menu
      rw [haddress, hnames]
      rfl
    simp only [reduced, hmenu, Menu.toList]
    rw [idxOf_map_name, List.idxOf_eq_getD_idxOf?, hidx]
    rfl

theorem reduced_of_demand {m : Model} {s : Session ε} {mv : Move} {dm : Demand}
    (h : s.demand m mv = .ok dm) : s.reduced m mv = dm := by
  obtain ⟨rfl, rfl⟩ | ⟨rfl, rfl⟩ | ⟨action, k, rfl, rfl, ho⟩ := demand_eq_ok h
  · rfl
  · rfl
  · exact (addressed_of_offsetOf ho).reduced_eq

end Session

/-! ## Trails -/

namespace Walker

variable {d : Dynamics}

def led (w : Walker d) (dms : List Demand) : Walker d :=
  dms.foldl (fun w dm => (dm.apply w).2) w

/-- The passages of demands in turn. -/
def trail (w : Walker d) : List Demand → List Passage
  | [] => []
  | dm :: rest =>
    ⟨dm, (dm.apply w).2.current, (dm.apply w).2.reward⟩ :: trail (dm.apply w).2 rest

theorem led_ofSeed_restart (d : Dynamics) (seed : UInt64) {dms : List Demand}
    (h : ∀ dm ∈ dms, dm = .restart) : (ofSeed d seed).led dms = ofSeed d seed := by
  induction dms with
  | nil => rfl
  | cons dm rest ih =>
    obtain rfl := h dm List.mem_cons_self
    show ((ofSeed d seed).reset).led rest = _
    rw [reset_ofSeed]
    exact ih fun dm hdm => h dm (List.mem_cons_of_mem _ hdm)

end Walker

namespace Session

variable {d : Dynamics} (hd : d.Sound)
include hd

/-- A move that comes down to a demand makes a passage of it. -/
theorem Safe.passage_of_demand {s : Session (Walker d)} (h : s.Safe) {mv : Move} {dm : Demand}
    (hdm : s.demand d.toModel mv = .ok dm) :
    s.passage? d.toModel (.move mv) =
        some ⟨dm, (dm.apply s.engine).2.current, (dm.apply s.engine).2.reward⟩ ∧
      (s.handle d.toModel (.move mv)).2 = { s with engine := (dm.apply s.engine).2 } := by
  obtain ⟨r, hr, hperform⟩ := h.perform_eq_ok hd hdm
  obtain ⟨o, ho⟩ := (h.moved hd hdm).report_eq_ok hd
  rw [hr] at ho
  cases ho
  have hhandle := handle_move d.toModel s mv
  rw [hperform] at hhandle
  refine ⟨?_, by rw [hhandle]⟩
  unfold passage?
  rw [hhandle]
  show some (⟨s.reduced d.toModel mv, _, _⟩ : Passage) = _
  rw [reduced_of_demand hdm]
  rfl

theorem Safe.demands_move {s : Session (Walker d)} (h : s.Safe) {mv : Move} {dm : Demand}
    (hdm : s.demand d.toModel mv = .ok dm) (rs : List Request) :
    (s.passages d.toModel (.move mv :: rs)).map Passage.demand =
      dm :: (passages d.toModel { s with engine := (dm.apply s.engine).2 } rs).map
        Passage.demand := by
  obtain ⟨hpassage, hhandle⟩ := h.passage_of_demand hd hdm
  rw [passages, hpassage, hhandle]
  rfl

/-- A request makes a passage of the demand it put to the engine, or leaves the engine alone. -/
theorem Safe.handle_passage {s : Session (Walker d)} (h : s.Safe) (r : Request) :
    (s.passage? d.toModel r = none ∧ (s.handle d.toModel r).2.engine = s.engine) ∨
      ∃ dm : Demand,
        s.passage? d.toModel r =
          some ⟨dm, (dm.apply s.engine).2.current, (dm.apply s.engine).2.reward⟩ ∧
        (s.handle d.toModel r).2.engine = (dm.apply s.engine).2 := by
  cases hr : s.setting d.toModel r with
  | some made =>
    refine Or.inl ⟨passage?_of_setting hr, ?_⟩
    rw [handle_setting hr, change_snd, setting_engine hr]
  | none =>
    obtain ⟨mv, rfl⟩ := setting_eq_none hr
    cases hdm : s.demand d.toModel mv with
    | error e =>
      have hhandle := handle_move d.toModel s mv
      rw [perform_of_demand_error h.usable hdm] at hhandle
      refine Or.inl ⟨?_, by rw [hhandle]⟩
      unfold passage?
      rw [hhandle]
      rfl
    | ok dm =>
      obtain ⟨hpassage, hhandle⟩ := h.passage_of_demand hd hdm
      exact Or.inr ⟨dm, hpassage, congrArg engine hhandle⟩

/-- A run follows the trail of its demands. -/
theorem Safe.passages_run {s : Session (Walker d)} (h : s.Safe) (rs : List Request) :
    s.passages d.toModel rs =
        s.engine.trail ((s.passages d.toModel rs).map Passage.demand) ∧
      (s.run d.toModel rs).2.engine =
        s.engine.led ((s.passages d.toModel rs).map Passage.demand) := by
  -- Both sides start where the engine stands, which only a passage moves.
  induction rs generalizing s with
  | nil => exact ⟨rfl, rfl⟩
  | cons r rs ih =>
    obtain ⟨htrail, hled⟩ := ih (h.outcome hd (handle_outcome d.toModel s r)).1
    have hrun : (s.run d.toModel (r :: rs)).2 = ((s.handle d.toModel r).2.run d.toModel rs).2 := rfl
    rw [hrun, hled, passages]
    rcases h.handle_passage hd r with ⟨hnone, hengine⟩ | ⟨dm, hsome, hengine⟩
    · rw [hnone, hengine]
      rw [hengine] at htrail
      exact ⟨htrail, rfl⟩
    · rw [hsome, hengine]
      rw [hengine] at htrail
      exact ⟨congrArg (List.cons _) htrail, rfl⟩

end Session

/-- The trajectory depends only on the seed and on the moves that were made: simulators created with one seed
whose moves come down to the same demands pass through the same states with the same rewards and end with
the same engine, random stream included, whatever else was asked of them. -/
theorem Simulation.trajectory_determined {p : ExplicitModel} (hp : p.Validated) {c c' : Settings}
    {drawn drawn' : UInt64} {s s' : Session (Walker p.dynamics)}
    (h : create p.source c drawn = .ok ⟨p.dynamics, s⟩)
    (h' : create p.source c' drawn' = .ok ⟨p.dynamics, s'⟩)
    (hseed : c.seed.getD drawn = c'.seed.getD drawn') {rs rs' : List Request}
    (hmoves : (s.passages p.dynamics.toModel rs).map Passage.demand =
      (s'.passages p.dynamics.toModel rs').map Passage.demand) :
    s.current = s'.current ∧
      s.passages p.dynamics.toModel rs = s'.passages p.dynamics.toModel rs' ∧
      (s.run p.dynamics.toModel rs).2.engine = (s'.run p.dynamics.toModel rs').2.engine := by
  have hd := hp.sound
  obtain ⟨hs, hsseed⟩ := fresh_of_create rfl h
  obtain ⟨hs', hsseed'⟩ := fresh_of_create rfl h'
  have hengine : s.engine = s'.engine := by
    rw [hs.engine, hs'.engine, hsseed, hsseed', hseed]
  obtain ⟨htrail, hled⟩ := (hs.safe hd).passages_run hd rs
  obtain ⟨htrail', hled'⟩ := (hs'.safe hd).passages_run hd rs'
  refine ⟨congrArg Walker.current hengine, ?_, ?_⟩
  · rw [htrail, htrail', hengine, hmoves]
  · rw [hled, hled', hengine, hmoves]

/-- One simulator shows states and the other hides them at first, is asked for an action by a name it
does not know and is told to show states between its moves; both wander and go back. -/
theorem Simulation.twins_trajectory_determined :
    ∃ p s s', Gallery.twins = .ok p ∧
      create p.source {} 7 = .ok ⟨p.dynamics, s⟩ ∧
      create p.source { seed := some 7, full := some false } 3 = .ok ⟨p.dynamics, s'⟩ ∧
      (s.passages p.dynamics.toModel [.move .wander, .move .restart]).map Passage.demand =
        [.wander, .restart] ∧
      s.passages p.dynamics.toModel [.move .wander, .move .restart] =
        s'.passages p.dynamics.toModel
          [.move (.step (some (.name "up"))), .move .wander, .full true, .move .restart] := by
  obtain ⟨p, htwins, hp, hpart, -⟩ := Gallery.twins_validated
  have hd := hp.sound
  have h := create_of_fits p.source rfl rfl (c := {}) ⟨by simp [hpart], nofun, nofun⟩ 7
  have h' := create_of_fits p.source rfl rfl (c := { seed := some 7, full := some false })
    ⟨fun _ => hpart, nofun, nofun⟩ 3
  have hsafe := (fresh_of_create rfl h).1.safe hd
  have hsafe' := (fresh_of_create rfl h').1.safe hd
  have hwander {s : Session (Walker p.dynamics)} : s.demand p.dynamics.toModel .wander = .ok .wander :=
    rfl
  have hrestart {s : Session (Walker p.dynamics)} :
      s.demand p.dynamics.toModel .restart = .ok .restart := rfl
  have hdemands := (hsafe.demands_move hd hwander [.move .restart]).trans
    (congrArg (List.cons Demand.wander) ((hsafe.moved hd hwander).demands_move hd hrestart []))
  -- The name is turned down before the first passage; the states are shown before the second.
  have hshown := (hsafe'.moved hd hwander).outcome hd (Session.handle_outcome _ _ (.full true))
  have hdemands' := (hsafe'.demands_move hd hwander [.full true, .move .restart]).trans
    (congrArg (List.cons Demand.wander) (hshown.1.demands_move hd hrestart []))
  exact ⟨p, _, _, htwins, h, h', hdemands,
    (trajectory_determined hp h h' rfl (hdemands.trans hdemands'.symm)).2.1⟩

end MarkovSim
