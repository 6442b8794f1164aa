import Mumble.Deeds.Runs
import Mumble.Udp

namespace Mumble

open Mumble.Lib
open DecryptRun (samplePing1)

namespace ServerState

variable {start s : ServerState} {course : List Occurrence} {addr : SocketAddr} {q : ClientRef}

-- In the course of the run a datagram came from the address that decrypts under the key of
-- the client.
def ProvedBy (start : ServerState) (course : List Occurrence) (addr : SocketAddr) (q : ClientRef) :
    Prop :=
  ∃ before l after s datagram order packet, course = before ++ .Event l :: after ∧
    Run Occurs start before s ∧ l.event = .Udp addr datagram order ∧
    s.Authenticates l.now datagram q packet

theorem ProvedBy.later (h : ProvedBy start course addr q) (more : List Occurrence) :
    ProvedBy start (course ++ more) addr q := by
  obtain ⟨before, l, after, s, datagram, order, packet, rfl, hrest⟩ := h
  exact ⟨before, l, after ++ more, s, datagram, order, packet, by simp, hrest⟩

theorem Permits.bind {c : Client} {o : Occurrence} (hrun : Run Occurs start course s)
    (h : s.Permits o q c (.Bind addr)) : ProvedBy start (course ++ [o]) addr q := by
  cases o with
  | Event l =>
      obtain ⟨datagram, order, packet, hevent, hauthenticates⟩ := h
      exact ⟨course, l, [], s, datagram, order, packet, rfl, hrun, hevent, hauthenticates⟩
  | Sample limits now => exact absurd h id

-- An address is some client's only if that client, or somebody with its key, has sent
-- something from there.
theorem socket_proved {removePositionalData : Bool} {anticheat : AnticheatConfig} {bans : BanList}
    (hrun : Run Occurs (.new removePositionalData anticheat bans) course s)
    (hsocket : s.getClientBySocket addr = some q) :
    ProvedBy (.new removePositionalData anticheat bans) course addr q := by
  have hsound : s.registry.Sound := hrun.invariant (P := fun _ => True)
    (I := fun s => s.registry.Sound) (fun _ hs h => sound_occurs hs h) (fun _ _ => trivial)
    (sound_new _ _ _)
  refine run_kept (I := fun course q c => ∀ addr, c.udpSocketAddr = some addr →
    ProvedBy (.new removePositionalData anticheat bans) course addr q) ?_ ?_ ?_ ?_ hrun q addr
    (hsound.indexed.bySocket hsocket).2
  · rintro course q c ⟨username, session, key, peerIp, write, now, mute, rfl⟩ addr haddr
    cases haddr
  · exact fun o hc addr haddr => (hc addr haddr).later [o]
  · exact fun rest hc => hc
  · intro course s o q c d hrun _ hd hc addr haddr
    cases d with
    | Bind other =>
        obtain rfl : other = addr := Option.some.inj haddr
        exact hd.bind hrun
    | Unbind => cases haddr
    | _ => exact hc addr haddr

theorem socket_proved_sample :
    ∃ course, Run Occurs sampleServer course boundServer ∧
      boundServer.getClientBySocket eveAddr = some 0 ∧ ProvedBy sampleServer course eveAddr 0 := by
  have hrun : Run Occurs sampleServer (sampleServer.courseOf
      [(0, .Connect "eve" "10.0.0.1" sampleKey .Open), (0, .Udp eveAddr samplePing1 [0])])
      boundServer := run_courseOf (by simp)
  have hsocket : boundServer.getClientBySocket eveAddr = some 0 := by decide +kernel
  exact ⟨_, hrun, hsocket, socket_proved hrun hsocket⟩

end ServerState

end Mumble
