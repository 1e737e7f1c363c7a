import TcpChat.FramingServer.Shutdown
import TcpChat.BlockingServer.Shutdown

/-!
# Shutdown of the servers with a thread for each client

Both servers join their receiving threads while they hold the mutex that these threads take in `BroadcastMsg`.
-/

namespace TcpChat

/-- **Shutdown is free of the deadlock as long as no message gets in its way**: in the framing server and in the
blocking one. -/
theorem shutdown_quiet (s : FramingServer.Server) (t : BlockingServer.Server) :
    (FramingServer.server.Reach FramingServer.Server.StopsQuietly s → ¬ s.JoinDeadlock) ∧
      (BlockingServer.server.Reach BlockingServer.Server.StopsQuietly t → ¬ t.JoinDeadlock) :=
  ⟨FramingServer.no_joinDeadlock, BlockingServer.no_joinDeadlock⟩

/-- A client that sends nothing: `Stop` comes to the join and does not block there. -/
theorem shutdown_quiet_silent :
    ((FramingServer.server.run (.start 1) (FramingServer.connect [] ++ FramingServer.stopToJoin)).map
        (fun s => s.stop) = some (.joinRecv 0 []) ∧
      ∀ s ∈ FramingServer.server.run (.start 1) (FramingServer.connect [] ++ FramingServer.stopToJoin),
        ¬ s.JoinDeadlock) ∧
    (BlockingServer.server.run (.start 1) (BlockingServer.connect [] ++ BlockingServer.stopToJoin)).map
        (fun s => s.stop) = some (.join 0 []) ∧
      ∀ s ∈ BlockingServer.server.run (.start 1) (BlockingServer.connect [] ++ BlockingServer.stopToJoin),
        ¬ s.JoinDeadlock := by
  have h₁ : FramingServer.server.Reach FramingServer.Server.StopsQuietly (.start 1) := .init ⟨1, rfl⟩
  have h₂ : BlockingServer.server.Reach BlockingServer.Server.StopsQuietly (.start 1) := .init ⟨1, rfl⟩
  refine ⟨⟨by decide +kernel, fun s hs => ?_⟩, by decide +kernel, fun t ht => ?_⟩
  · exact (shutdown_quiet s (.start 1)).1 (h₁.run_along hs (by decide +kernel))
  · exact (shutdown_quiet (.start 1) t).2 (h₂.run_along ht (by decide +kernel))

/-- A message that arrives after `Stop` has cleared `m_active` and before it takes the mutex deadlocks either
server. -/
theorem shutdown_deadlocks :
    (¬ ∀ s, FramingServer.server.Reachable s → ¬ s.JoinDeadlock) ∧
      ¬ ∀ s, BlockingServer.server.Reachable s → ¬ s.JoinDeadlock := by
  obtain ⟨s, hs, hd⟩ := FramingServer.joinDeadlock_run
  obtain ⟨t, ht, hd'⟩ := BlockingServer.joinDeadlock_run
  exact ⟨fun h => h s hs hd, fun h => h t ht hd'⟩

end TcpChat
