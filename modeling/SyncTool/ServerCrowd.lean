import SyncTool.ServerConfined
import SyncTool.ServerDisconnects

set_option autoImplicit false

namespace SyncTool

open SyncTool.Path Program Throwing RpcServer

theorem run_accepts (op : Op) (choice : Choice) (w : World) :
    w.accepted <+: (op.run choice w).2.accepted := by
  by_cases pushes : ∃ task, op = .pushTask task
  · obtain ⟨task, rfl⟩ := pushes
    exact List.prefix_append _ _
  · rw [run_accepted fun task same => pushes ⟨task, same⟩]

namespace ServerProcess

variable {ι : Type} [DecidableEq ι] {n : Nat}

variable {max_size : Nat} {c : ι} {s s' : Noted Bool (ServerProcess ι)}

/-- No call forgets a task. -/
theorem guarded_accepts {op : Guarded Op Bool} {answer : GuardedRes Res op}
    (ran : guarded max_size (c, op) s answer s') :
    s.state.machine.accepted <+: s'.state.machine.accepted := by
  rcases guarded_effect ran with ⟨-, -, rfl⟩ | ⟨-, ran⟩
  · exact List.prefix_refl _
  · refine guardedExec_effect (T := fun w w' : World => w.accepted <+: w'.accepted)
      (fun w => List.prefix_refl _) ?_ ran
    rintro op w answer w' ⟨choice, -, ran⟩
    have grown := run_accepts op choice w
    rwa [ran] at grown

/-- A step of a session ends the process and does nothing else, or the session makes it
by itself. -/
theorem guarded_step {α : Type} {p p' : Program (Guarded Op Bool) (GuardedRes Res) α}
    (one : Program.Step (fun op => guarded max_size (c, op)) p s p' s') :
    (s'.state.terminated = true ∧ s'.state.machine = s.state.machine) ∨
      Program.Step ((handler anything True).guarded max_size).exec p
        (sight s c) p' (sight s' c) := by
  induction one with
  | call ran =>
      rcases guarded_effect ran with ⟨-, -, rfl⟩ | ⟨-, ran⟩
      · exact .inl ⟨rfl, rfl⟩
      · exact .inr (.call (exec_anything ran))
  | child i _ ih =>
      rcases ih with ended | one
      · exact .inl ended
      · exact .inr (.child i one)
  | join verdicts all => exact .inr (.join verdicts all)

section

variable {dir : Bytes} {b : Path} {fs : FileSystem} {drift : World → World → Prop}
  {session : Program (Guarded Op Bool) (GuardedRes Res) Bool} {clients : List ι}
  {pool pool' : Crowd ι n}

/-- What is left of a session, which stays in the base directory as long as the
accepted tasks do. -/
def Stays (max_size : Nat) (dir : Bytes) (b : Path)
    (p : Program (Guarded Op Bool) (GuardedRes Res) Bool) (s : Noted Bool World) : Prop :=
  Sat ((handler anything True).guarded max_size) ((confining (dir ++ [slash]) b).comap Noted.state)
    p (fun _ _ => True) s

/-- Nothing outside of the base directory has changed, and what is left of each session stays in
there. -/
structure Orderly (max_size : Nat) (dir : Bytes) (b : Path) (fs : FileSystem) (pool : Crowd ι n) :
    Prop where
  confined : ConfinedTo b fs pool.state.state.machine.fs
  running : pool.state.state.terminated = false → ∀ i c q, pool.threads i = some (c, q) →
    ∃ p : Program (Guarded Op Bool) (GuardedRes Res) Bool, q = p.tag c ∧
      Stays max_size dir b p (sight pool.state c)

omit [DecidableEq ι] in
/-- The others put up with what keeps to the directory. -/
theorem Stays.others {p : Program (Guarded Op Bool) (GuardedRes Res) Bool}
    (stays : Stays max_size dir b p (sight s c))
    (moved : Neighbourly b s.state.machine s'.state.machine) :
    Stays max_size dir b p (sight s' c) :=
  Sat.rely stays moved

/-- No step forgets a task. -/
theorem CrowdStep.accepts (neighbourly : ∀ w w', drift w w' → Neighbourly b w w')
    (one : CrowdStep drift max_size session pool pool') :
    pool.state.state.machine.accepted <+: pool'.state.state.machine.accepted := by
  cases one with
  | leave c leaves => exact List.prefix_refl _
  | drift moved => exact (neighbourly _ _ moved).1
  | pool alive one =>
      cases one with
      | submit first | take i idle first | finish i held => exact List.prefix_refl _
      | work i held one =>
          rcases one.effect with ⟨op, answer, ran⟩ | same
          · exact guarded_accepts ran
          · rw [same]

theorem Orderly.step (based : Based (dir ++ [slash]) b fs)
    (fresh : ∀ s, Stays max_size dir b session s)
    (neighbourly : ∀ w w', drift w w' → Neighbourly b w w')
    (one : CrowdStep drift max_size session pool pool')
    (stays : ∀ task ∈ pool'.state.state.machine.accepted, StaysIn b task.destPath)
    (now : Orderly max_size dir b fs pool) : Orderly max_size dir b fs pool' := by
  cases one with
  | leave c leaves =>
      refine ⟨now.confined, fun alive i other q held => ?_⟩
      obtain ⟨p, rfl, keeps⟩ := now.running alive i other q held
      exact ⟨p, rfl, keeps.others ⟨List.prefix_refl _, .refl b _⟩⟩
  | drift moved =>
      have moved' := neighbourly _ _ moved
      refine ⟨now.confined.trans moved'.2, fun alive i other q held => ?_⟩
      obtain ⟨p, rfl, keeps⟩ := now.running alive i other q held
      exact ⟨p, rfl, keeps.others moved'⟩
  | pool alive one =>
      cases one with
      | submit first => exact ⟨now.confined, now.running⟩
      | @take task rest i idle first =>
          refine ⟨now.confined, fun alive j c q found => ?_⟩
          rcases ThreadPool.held_update found with ⟨rfl, same⟩ | ⟨-, held⟩
          · cases same
            exact ⟨session, rfl, fresh _⟩
          · exact now.running alive j c q held
      | @work task q q' state i held one =>
          obtain ⟨p, rfl, keeps⟩ := now.running alive i task q held
          obtain ⟨p', rfl, ours⟩ := one.of_tag
          rcases guarded_step ours with ⟨ended, same⟩ | own
          · constructor
            · show ConfinedTo b fs state.state.machine.fs
              rw [same]
              exact now.confined
            · intro alive'
              have impossible : state.state.terminated = false := alive'
              rw [ended] at impossible
              cases impossible
          · obtain ⟨⟨grown, inside⟩, rest⟩ := Sat.step keeps own
            have confined : ConfinedTo b pool.state.state.machine.fs state.state.machine.fs :=
              inside stays (based.kept now.confined)
            refine ⟨now.confined.trans confined, fun _ j c q found => ?_⟩
            rcases ThreadPool.held_update found with ⟨rfl, same⟩ | ⟨-, held'⟩
            · cases same
              exact ⟨p', rfl, rest⟩
            · obtain ⟨p'', rfl, keeps'⟩ := now.running alive j c q held'
              exact ⟨p'', rfl, keeps'.others ⟨grown, confined⟩⟩
      | @finish task verdict i held =>
          refine ⟨now.confined, fun alive j c q found => ?_⟩
          rcases ThreadPool.held_update found with ⟨rfl, same⟩ | ⟨-, held'⟩
          · cases same
          · exact now.running alive j c q held'

/-- A session that `start` gives to the pool stays in the base directory of its server. -/
theorem work_stays (server : SyncServer) (rpc : RpcServer) (fuel : Nat)
    (based : server.baseDirectory = dir ++ [slash]) (s : Noted Bool World) :
    Stays max_size dir b (server.work rpc fuel) s := by
  apply Sat.bind
  apply ((handleClient_minds based s.state) s rfl).weaken
  exact fun result s' _ s'' _ => trivial

/-- However many clients a server has, whatever they send in either mode, and however its workers
take turns: as long as no path string that any of them had accepted leads out of the base directory,
everything outside of it looks as at first. -/
theorem start_confined (server : SyncServer) (rpc : RpcServer) (baseDir : Bytes)
    (nonempty : baseDir ≠ [])
    (found : fs.resolve (withSlash baseDir) = some b) (isDir : fs.entry b = some .dir)
    (neighbourly : ∀ w w', drift w w' → Neighbourly b w w') (max_size fuel : Nat) (clients : List ι)
    (run : Relation.ReflTransGen
      (CrowdStep drift max_size ((server.setBaseDirectory baseDir).work rpc fuel))
      (ThreadPool.boot clients (Noted.start (boot fs))) pool)
    (stays : ∀ task ∈ pool.state.state.machine.accepted, StaysIn b task.destPath) :
    ConfinedTo b fs pool.state.state.machine.fs := by
  obtain ⟨dir, slashed⟩ := exists_withSlash nonempty
  have based : Based (dir ++ [slash]) b fs := ⟨by rw [← slashed]; exact found, isDir⟩
  suffices orderly : Orderly max_size dir b fs pool from orderly.confined
  induction run with
  | refl => exact ⟨.refl b fs, fun _ i c q held => by simp [ThreadPool.boot] at held⟩
  | tail _ one ih =>
      have before := ih fun task member => stays task ((one.accepts neighbourly).subset member)
      exact before.step based (work_stays _ rpc fuel slashed) neighbourly one stays

end

/-- Whatever a session may do by itself it may do among others, unless its client has reset its
connection. -/
theorem guarded_of_exec {policy : Policy} {op : Guarded Op Bool} {answer : GuardedRes Res op}
    {s₁ : Noted Bool World} (alive : s.state.terminated = false)
    (there : (s.state.connection c).peer ≠ .reset)
    (permits : ∀ op choice w, policy op choice w → (s.state.connection c).peer.permits op choice)
    (ran : ((handler policy True).guarded max_size).exec op (sight s c) answer s₁) :
    ∃ s', guarded max_size (c, op) s answer s' ∧ sight s' c = s₁ ∧
      s'.state.terminated = false ∧ (s'.state.connection c).peer = (s.state.connection c).peer := by
  cases op with
  | alloc size =>
      obtain ⟨granted, rfl⟩ := ran
      exact ⟨_, ⟨granted, rfl⟩, rfl, alive, rfl⟩
  | note what =>
      obtain rfl : s₁ = _ := ran
      exact ⟨{ s with notes := s.notes ++ [(what, s.state)] }, rfl, by simp [sight], alive, rfl⟩
  | sys op =>
      cases answer with
      | none =>
          obtain rfl : s₁ = _ := ran
          exact ⟨{ s with exhausted := true }, rfl, rfl, alive, rfl⟩
      | some answer =>
          obtain ⟨w, ⟨choice, allowed, ran⟩, rfl⟩ := ran
          have moved : exec (c, op) s.state answer (s.state.update c w) := by
            refine ⟨alive, ?_⟩
            rw [if_neg fun reset => there reset.2]
            exact ⟨choice, w, permits op choice _ allowed, ran, rfl⟩
          refine ⟨{ s with state := s.state.update c w }, ⟨_, moved, rfl⟩, ?_, alive, peer_update⟩
          rw [sight, view_update_self]
          rfl

theorem attended_reach {policy : Policy} {ok : Guarded Op Bool → Prop}
    {drift : World → World → Prop}
    {session p p' second : Program (Guarded Op Bool) (GuardedRes Res) Bool} {s₁ : Noted Bool World}
    {state : Noted Bool (ServerProcess Nat)} (straight : p.Calls ok)
    (alive : state.state.terminated = false) (there : (state.state.connection 0).peer ≠ .reset)
    (permits : ∀ op choice w, policy op choice w →
      (state.state.connection 0).peer.permits op choice)
    (run : Reach ((handler policy True).guarded max_size).exec Eq p (sight state 0) p' s₁) :
    ∃ state', sight state' 0 = s₁ ∧ Relation.ReflTransGen (CrowdStep drift max_size session)
      (attended p second state) (attended p' second state') := by
  suffices kept : p'.Calls ok ∧ ∃ state' : Noted Bool (ServerProcess Nat), sight state' 0 = s₁ ∧
      state'.state.terminated = false ∧
      (state'.state.connection 0).peer = (state.state.connection 0).peer ∧
      Relation.ReflTransGen (CrowdStep drift max_size session) (attended p second state)
        (attended p' second state') by
    obtain ⟨-, state', same, -, -, sofar⟩ := kept
    exact ⟨state', same, sofar⟩
  induction run with
  | refl => exact ⟨straight, state, rfl, alive, rfl, .refl⟩
  | env _ same ih => exact same ▸ ih
  | @step p₁ p₂ s₁ s₂ _ one ih =>
      obtain ⟨straight₁, state₁, rfl, alive₁, peer, sofar⟩ := ih
      cases p₁ with
      | done value => exact absurd one not_step_done
      | spin => exact absurd one not_step_spin
      | fork count child join => exact straight₁.elim
      | call op next =>
          cases one with
          | call ran =>
              rw [← peer] at there permits
              obtain ⟨state₂, ran, same, alive₂, peer₂⟩ := guarded_of_exec alive₁ there permits ran
              refine ⟨straight₁.2 _, state₂, same, alive₂, peer₂.trans peer, sofar.tail ?_⟩
              exact attended_first alive₁ rfl ran

/-- One of two clients of a server of `/a` sends that task and closes its side, and what it has sent
is worked on while the other one waits. -/
theorem start_confined_crooked : ∃ pool : Crowd Nat 2,
    Relation.ReflTransGen
      (CrowdStep (Neighbourly [[97]]) plainAbi.max_size
        ((plainServer.setBaseDirectory [47, 97]).work localServer 20))
      (ThreadPool.boot [0, 1] (Noted.start (boot nestedFs))) pool ∧
    pool.state.state.machine.accepted = [crooked] ∧
    ConfinedTo [[97]] nestedFs pool.state.state.machine.fs := by
  let session := (plainServer.setBaseDirectory [47, 97]).work localServer 20
  let closed : Noted Bool (ServerProcess Nat) := Noted.start ((boot nestedFs).leave 0 .closed)
  have played : (Program.play (ServerProg.delivering crookedStream plainAbi.max_size) session
      (Noted.start (World.boot nestedFs))).map (fun r => (r.1, r.2.state.accepted)) =
        some (true, [crooked]) := by
    decide +kernel
  obtain ⟨⟨verdict, s⟩, plays, seen⟩ := Option.map_eq_some_iff.mp played
  obtain ⟨returned, accepted⟩ := Prod.mk.inj seen
  have run := Program.play_reach Eq (ServerProg.delivering_exec crookedStream plainAbi.max_size)
    plays
  have here : sight closed 0 = Noted.start (World.boot nestedFs) := rfl
  rw [← here] at run
  have straight : session.Calls (Throwing.within Op.speaks) :=
    Program.Calls.bind (ServerProg.handleClient_asks _ localServer 20) fun _ => trivial
  have begun := Relation.ReflTransGen.mono (fun _ _ one => And.right one) _ _
    (@attended_run (Neighbourly [[97]]) plainAbi.max_size localServer session nestedFs)
  have leaving : CrowdStep (Neighbourly [[97]]) plainAbi.max_size session
      (attended session session (Noted.start (boot nestedFs))) (attended session session closed) :=
    .leave 0 .close
  obtain ⟨state, same, sofar⟩ :=
    @attended_reach _ _ _ (Neighbourly [[97]]) session session _ session
    s closed straight rfl (by decide) (fun op choice w smooth => by
      have fault : choice.fault = .none := smooth
      show Peer.closed.permits op choice
      cases op with
      | recv count => exact fun error => by rw [fault] at error; cases error
      | _ => trivial) run
  have whole := (begun.tail leaving).trans sofar
  have only : state.state.machine.accepted = [crooked] := by
    rw [← accepted, ← same]
    rfl
  refine ⟨_, whole, only, ?_⟩
  apply start_confined plainServer localServer [47, 97] (by simp) (by decide +kernel)
    (by decide +kernel) (fun _ _ moved => moved) _ 20 _ whole
  intro task member
  have task_ : task ∈ [crooked] := only ▸ member
  obtain rfl := List.mem_singleton.mp task_
  decide +kernel

end ServerProcess

end SyncTool
