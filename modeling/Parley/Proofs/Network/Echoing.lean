import Parley.Proofs.Network.Dialing
import Parley.Sim.Network.Actions

/-! A command-line call of a server that echoes.

The call goes from its first look at its client's signal to the end of its client: it dials, makes
its handshake, sends its message, takes what comes back, closes its connection and shuts its client
down. With every step of the tasks that work for it the call comes closer to its end, and one of
them is always ready, whatever else the network does (`call_is_echoed`). -/
namespace Parley.Sim.Network
open Channel Watch

variable {own li : CallId} {config : Config} {n : Network}

/-- A call that begins finds what there was before it. -/
theorem reaches_call (h : n.Reaches own li config.connection config.client.address)
    (notify : Bool) (message : String) :
    (n.call own config notify message).Reaches own li config.connection config.client.address where
  steady := ⟨h.steady.reachable, h.steady.connection, h.steady.running, h.steady.echo,
    h.steady.attentive, h.steady.capacity, h.steady.fair⟩
  listens := h.listens
  direct := h.direct
  alone := h.alone
  apart i hi := by
    have hapart := h.apart i hi
    refine ⟨hapart.client, fun r hr hne => ?_, hapart.plains, hapart.server⟩
    obtain hr | hr := List.mem_append.mp hr
    · exact hapart.scripts r hr hne
    · obtain rfl := List.mem_singleton.mp hr
      exact absurd rfl hne

/-- **A call of a server that echoes prints its message and returns.** The configuration has no
problems and is that of both ends, the message fits its limits, the server can be reached and has
not been told to stop, and public keys that are exchanged come to one shared secret that is not
zero. Then, as long as no deadline passes and the server has a free slot, the call returns in every
run in which whatever is ready for good goes on at some time. Whatever the run, it returns without
an error and not before it has printed the message; with `notify` it prints nothing. All that it has
sent then is its public key and one frame with the message, under sequence number 0 with `notify`
and under the session key agreed with whoever is at the other end; and its client has no connection
that has not ended. -/
theorem call_is_echoed (notify : Bool) (message : String) (hvalid : config.problems = [])
    (hread : (Utf8.encode message).length + Frame.seqLength ≤ config.connection.maxRead)
    (hwrite : (Utf8.encode message).length + Frame.seqLength ≤ config.connection.maxWrite)
    (hnew : n.running? own = none)
    (hreaches : n.Reaches own li config.connection config.client.address) :
    (∀ w made, FairRun own (Calm config.client.address) w made →
      w 0 = { network := n.call own config notify message } →
      ∃ i, Errand.Over ⟨own, config, notify, message⟩ (w i) ∧
        ∀ k < i, Errand.Pending ⟨own, config, notify, message⟩ (w k)) ∧
    ∀ v, Leads own (Calm config.client.address)
        { network := n.call own config notify message } v →
      Errand.Pending ⟨own, config, notify, message⟩ v ∨
      ∃ w, Leads own (Calm config.client.address)
          { network := n.call own config notify message } w ∧
        Errand.Over ⟨own, config, notify, message⟩ w ∧
        Leads own (Calm config.client.address) w v := by
  have hfits : Errand.Fits ⟨own, config, notify, message⟩ := ⟨hvalid, hread, hwrite⟩
  have hrunning : (n.call own config notify message).running? own =
      some { script := .start own config notify message } := by
    show (n.scripts ++ _).find? _ = _
    rw [List.find?_append, show n.scripts.find? (·.script.id == own) = none from hnew]
    simp [Client.Script.start]
  have hdials : Errand.Dials ⟨own, config, notify, message⟩ li 3
      { network := n.call own config notify message } :=
    ⟨reaches_call hreaches notify message, ⟨_, _, _, .starting, hrunning⟩, rfl, rfl, rfl, rfl⟩
  have huntil := hdials.until hfits
  refine ⟨fun w made hrun hstart => ?_, fun v hleads => until_leads huntil hleads⟩
  obtain ⟨i, -, hover, hbefore⟩ := until_fair huntil hrun hstart
  exact ⟨i, hover, fun k hk => hbefore k (Nat.zero_le k) hk⟩

/-- A new network, in which the server echoes on its configured address. -/
def echoing : Network where
  entropy := ⟨[]⟩
  capacity := 64
  server := (Server.create {} {}).serve 0 "127.0.0.1:7070"
  serverApplication := .echo
  client := .create {} {}

theorem fair_echoing : echoing.entropy.Fair := by
  have hsecret : ∀ a, echoing.entropy.Yields a →
      a = List.replicate Exchange.keyLength Entropy.filler := by
    rintro a ⟨k, rfl⟩
    simp [echoing, Entropy.draw]
  intro a b ha hb
  rw [hsecret a ha, hsecret b hb]
  exact ⟨rfl, by decide +kernel⟩

theorem reaches_echoing : echoing.Reaches 1 0 {} "127.0.0.1:7070" where
  steady := ⟨⟨_, {}, {}, .single (.serve List.not_mem_nil)⟩, rfl, rfl, rfl, rfl, by decide,
    fair_echoing⟩
  listens := by
    refine ⟨fun l hl _ => ?_, _, rfl, rfl, rfl, by decide⟩
    obtain rfl := List.mem_singleton.mp hl
    rfl
  direct := List.not_mem_nil
  alone l hl := nomatch hl
  apart i _ := by
    refine ⟨⟨fun _ h => (nomatch h), fun _ h => (nomatch h)⟩, fun _ h => (nomatch h),
      fun _ h => (nomatch h), fun l hl _ => ?_, fun _ h => (nomatch h)⟩
    obtain rfl := List.mem_singleton.mp hl
    exact List.not_mem_nil

theorem hello_is_echoed :
    Config.problems {} = [] ∧
    (Utf8.encode "hello").length + Frame.seqLength ≤ ({} : Config).connection.maxRead ∧
    (Utf8.encode "hello").length + Frame.seqLength ≤ ({} : Config).connection.maxWrite ∧
    echoing.Reaches 1 0 {} "127.0.0.1:7070" ∧
    ∀ w made, FairRun 1 (Calm "127.0.0.1:7070") w made →
      w 0 = { network := echoing.call 1 {} false "hello" } →
      ∃ i, Errand.Over ⟨1, {}, false, "hello"⟩ (w i) ∧
        ∀ k < i, Errand.Pending ⟨1, {}, false, "hello"⟩ (w k) := by
  have hvalid : Config.problems {} = [] := by decide +kernel
  have hread : (Utf8.encode "hello").length + Frame.seqLength ≤
      ({} : Config).connection.maxRead := by decide +kernel
  have hwrite : (Utf8.encode "hello").length + Frame.seqLength ≤
      ({} : Config).connection.maxWrite := by decide +kernel
  exact ⟨hvalid, hread, hwrite, reaches_echoing,
    (call_is_echoed false "hello" hvalid hread hwrite rfl reaches_echoing).1⟩

end Parley.Sim.Network
