import Mathlib.Data.List.FinRange

/-!
# A bus channel with a registered grant

Several masters share an address channel and the response channel that belongs to
it. When nobody holds the channel and somebody asks, a register takes over who is
served next; only then are the two channels connected. The grant is given up with
the final beat of a response.

A response carries no name. That it reaches the master whose address it answers
rests on two rules for the masters: an address that is valid stays so until it is
accepted, and a master with an open transfer offers no other address. The rules
are hypotheses here, about the masters' valid signals of two consecutive cycles.
-/

namespace Bus

/-- The arbiter of one channel pair. The rest is a record of the run: who made the
addresses that were accepted, how many of them are finished, the transfer that
each beat of the slave belongs to, and the beats that each master has received. -/
structure Channel (n : Nat) where
  busy : Bool := false
  grantId : Fin n
  accepted : List (Fin n) := []
  finished : Nat := 0
  sent : List Nat := []
  received : Fin n → List Nat := fun _ => []

/-- The handshake signals of a cycle, without those that the arbiter drives. -/
structure Signals (n : Nat) where
  addrValid : Fin n → Bool := fun _ => false
  respReady : Fin n → Bool := fun _ => false
  addrReady : Bool := false
  respValid : Bool := false
  respLast : Bool := false

namespace Channel

variable {n : Nat} (c : Channel n) (i : Signals n)

def hasReq : Bool := (List.finRange n).any i.addrValid

/-- Of several masters that ask, the last one is granted. -/
def grant : Fin n :=
  (List.finRange n).foldl (fun g m => if i.addrValid m then m else g) c.grantId

/-- The channels of this master are those of the slave. -/
def connected (m : Fin n) : Bool := c.busy && c.grantId == m

def addrFire (m : Fin n) : Bool := c.connected m && i.addrValid m && i.addrReady

def respFire (m : Fin n) : Bool := c.connected m && i.respValid && i.respReady m

/-- What the slave sees of the masters. -/
def addrValidOut : Bool := c.busy && i.addrValid c.grantId

def respReadyOut : Bool := c.busy && i.respReady c.grantId

def finishes : Bool := i.respValid && c.respReadyOut i && i.respLast

def step : Channel n where
  busy := !c.finishes i && (c.busy || hasReq i)
  grantId := if !c.busy && hasReq i then c.grant i else c.grantId
  accepted := if c.addrFire i c.grantId then c.accepted ++ [c.grantId] else c.accepted
  finished := if c.finishes i then c.finished + 1 else c.finished
  sent := if i.respValid && c.respReadyOut i then c.sent ++ [c.finished] else c.sent
  received := fun m => if c.respFire i m then c.received m ++ [c.finished] else c.received m

/-- Some transfer is open. -/
def isOpen : Prop := c.finished < c.accepted.length

/-- The slave answers only addresses it has accepted. -/
def Legal : Prop :=
  i.respValid = true → c.finished < (c.step i).accepted.length

instance : Decidable (c.Legal i) :=
  inferInstanceAs (Decidable (_ → _))

/-- At most one transfer is open, and it is that of the master that holds the
grant; every beat has reached the master whose address it answers, in order. -/
structure Delivers : Prop where
  one : c.finished ≤ c.accepted.length ∧ c.accepted.length ≤ c.finished + 1
  owner : c.isOpen → c.busy = true ∧ c.accepted[c.finished]? = some c.grantId
  received : ∀ m, c.received m = c.sent.filter fun k => c.accepted[k]? == some m

/-- What the arbiter does in a cycle to the master that holds the grant: it keeps
the grant up to the final beat, and as long as its address is open to be accepted,
the slave sees it. -/
structure Holds : Prop where
  constant : c.busy = true → c.finishes i = false →
    (c.step i).busy = true ∧ (c.step i).grantId = c.grantId
  /-- The grant is given up only with an open transfer. -/
  ends : c.finishes i = true → c.finished < (c.step i).accepted.length
  offered : c.busy = true → ¬ c.isOpen → c.addrValidOut i = true
  accepted : ∀ m, c.connected m = true → i.addrValid m = true → c.addrFire i m = i.addrReady
  /-- A beat is transferred at the slave exactly if it is at one master. -/
  delivered : (i.respValid && c.respReadyOut i) = true ↔ ∃ m, c.respFire i m = true

variable {c i}

theorem connected_grantId : c.connected c.grantId = c.busy := by simp [connected]

theorem eq_of_connected {m : Fin n} (h : c.connected m = true) : c.busy = true ∧ c.grantId = m := by
  simpa [connected] using h

private theorem foldl_grant (g : Fin n) (ms : List (Fin n)) :
    i.addrValid (ms.foldl (fun g m => if i.addrValid m then m else g) g) =
      (i.addrValid g || ms.any i.addrValid) := by
  induction ms generalizing g with
  | nil => simp
  | cons m ms ih =>
    rw [List.foldl_cons, ih, List.any_cons]
    cases hm : i.addrValid m <;> simp [hm]

/-- The granted master asks. -/
theorem addrValid_grant (h : hasReq i = true) : i.addrValid (c.grant i) = true := by
  rw [grant, foldl_grant]
  rw [hasReq] at h
  rw [h, Bool.or_true]

/-- The states in which the channel settles, given who offers an address. -/
structure Inv (c : Channel n) (addrValid : Fin n → Bool) : Prop where
  delivers : c.Delivers
  offers : c.busy = true → ¬ c.isOpen → addrValid c.grantId = true
  silent : c.isOpen → addrValid c.grantId = false
  sent : ∀ k ∈ c.sent, k < c.accepted.length

theorem Inv.init {addrValid : Fin n → Bool} (hbusy : c.busy = false) (haccepted : c.accepted = [])
    (hfinished : c.finished = 0) (hsent : c.sent = []) (hreceived : ∀ m, c.received m = []) :
    c.Inv addrValid where
  delivers :=
    ⟨by simp [haccepted, hfinished], by simp [isOpen, haccepted], by simp [hsent, hreceived]⟩
  offers := by simp [hbusy]
  silent := by simp [isOpen, haccepted]
  sent := by simp [hsent]

/-- The number of accepted addresses after the cycle. -/
theorem length_accepted : (c.step i).accepted.length =
    c.accepted.length + (c.addrFire i c.grantId).toNat := by
  simp only [step]
  cases c.addrFire i c.grantId <;> simp

theorem Inv.holds (h : c.Inv i.addrValid) (hlegal : c.Legal i) : c.Holds i where
  constant hbusy hfin := by simp [step, hbusy, hfin]
  ends hfin := by
    simp only [finishes, Bool.and_eq_true] at hfin
    exact hlegal hfin.1.1
  offered hbusy hopen := by
    rw [addrValidOut, hbusy, h.offers hbusy hopen]
    rfl
  accepted m hm hvalid := by rw [addrFire, hm, hvalid]; rfl
  delivered := by
    constructor
    · intro hfire
      refine ⟨c.grantId, ?_⟩
      simp only [respReadyOut, Bool.and_eq_true] at hfire
      simp [respFire, connected_grantId, hfire]
    · rintro ⟨m, hfire⟩
      simp only [respFire, Bool.and_eq_true] at hfire
      obtain ⟨hbusy, rfl⟩ := eq_of_connected hfire.1.1
      simp [respReadyOut, hbusy, hfire]

theorem busy_of_addrFire {m : Fin n} (h : c.addrFire i m = true) :
    c.busy = true ∧ c.grantId = m ∧ i.addrValid m = true := by
  simp only [addrFire, Bool.and_eq_true] at h
  exact ⟨(eq_of_connected h.1.1).1, (eq_of_connected h.1.1).2, h.1.2⟩

/-- An address is accepted only when no transfer is open. -/
theorem Inv.length_eq_of_addrFire (h : c.Inv i.addrValid)
    (hfire : c.addrFire i c.grantId = true) : c.accepted.length = c.finished := by
  by_contra hne
  have hopen : c.isOpen := by
    have := h.delivers.one
    rw [isOpen]
    omega
  have hsilent := h.silent hopen
  rw [(busy_of_addrFire hfire).2.2] at hsilent
  cases hsilent

/-- A transfer that is open when the address of this cycle counts belongs to the
master with the grant. -/
theorem Inv.owner_next (h : c.Inv i.addrValid)
    (hopen : c.finished < (c.step i).accepted.length) :
    c.busy = true ∧ (c.step i).accepted[c.finished]? = some c.grantId := by
  rw [length_accepted] at hopen
  simp only [step]
  cases hfire : c.addrFire i c.grantId with
  | true =>
    have hlen := h.length_eq_of_addrFire hfire
    refine ⟨(busy_of_addrFire hfire).1, ?_⟩
    simp [← hlen]
  | false =>
    rw [hfire] at hopen
    simpa using h.delivers.owner hopen

/-- The accepted addresses so far stay where they are. -/
theorem accepted_of_lt {k : Nat} (h : k < c.accepted.length) :
    (c.step i).accepted[k]? = c.accepted[k]? := by
  simp only [step]
  split_ifs
  · exact List.getElem?_append_left h
  · rfl

theorem Inv.received_step (h : c.Inv i.addrValid) (hlegal : c.Legal i) (m : Fin n) :
    (c.step i).received m =
      (c.step i).sent.filter fun k => (c.step i).accepted[k]? == some m := by
  have hold : (c.sent.filter fun k => (c.step i).accepted[k]? == some m) = c.received m := by
    rw [h.delivers.received m]
    refine List.filter_congr fun k hk => ?_
    rw [accepted_of_lt (h.sent k hk)]
  have hsent : (c.step i).sent =
      if i.respValid && c.respReadyOut i then c.sent ++ [c.finished] else c.sent := rfl
  have hreceived : (c.step i).received m =
      if c.respFire i m then c.received m ++ [c.finished] else c.received m := rfl
  rw [hsent, hreceived]
  cases hbeat : i.respValid && c.respReadyOut i with
  | false =>
    have hno : c.respFire i m = false := by
      by_contra hfire
      have hsome := (h.holds hlegal).delivered.mpr ⟨m, Bool.of_not_eq_false hfire⟩
      rw [hbeat] at hsome
      cases hsome
    simp [hno, hold]
  | true =>
    -- the beat belongs to the transfer of the master with the grant
    obtain ⟨hvalid, hready⟩ : i.respValid = true ∧ i.respReady c.grantId = true := by
      simp only [respReadyOut, Bool.and_eq_true] at hbeat
      exact ⟨hbeat.1, hbeat.2.2⟩
    obtain ⟨hbusy, howner⟩ := h.owner_next (hlegal hvalid)
    simp only [if_true, List.filter_append, hold]
    by_cases hm : c.grantId = m
    · subst hm
      have hfire : c.respFire i c.grantId = true := by
        simp [respFire, connected_grantId, hbusy, hvalid, hready]
      simp [hfire, howner]
    · have hfire : c.respFire i m = false := by simp [respFire, connected, hm]
      simp [hfire, howner, hm]

theorem finished_step : (c.step i).finished = c.finished + (c.finishes i).toNat := by
  simp only [step]
  cases c.finishes i <;> simp

/-- An open transfer after the cycle was open before or has just been accepted, and
it did not end. -/
theorem Inv.open_step (h : c.Inv i.addrValid) (hlegal : c.Legal i) (hopen : (c.step i).isOpen) :
    c.finishes i = false ∧ (c.isOpen ∨ c.addrFire i c.grantId = true) := by
  have hends := (h.holds hlegal).ends
  rw [isOpen, finished_step, length_accepted] at hopen
  rw [length_accepted] at hends
  have hone := h.delivers.one
  rw [isOpen]
  cases hfire : c.addrFire i c.grantId with
  | true =>
    have heq := h.length_eq_of_addrFire hfire
    cases hfin : c.finishes i with
    | false => exact ⟨rfl, .inr rfl⟩
    | true =>
      simp only [hfire, hfin, Bool.toNat_true] at hopen
      omega
  | false =>
    cases hfin : c.finishes i with
    | false => exact ⟨rfl, .inl (by simpa [hfire, hfin] using hopen)⟩
    | true =>
      have hlt := hends hfin
      simp only [hfire, hfin, Bool.toNat_true, Bool.toNat_false] at hopen hlt
      omega

/-- The master with the open transfer had the grant before. -/
theorem Inv.grantId_step (h : c.Inv i.addrValid) (hlegal : c.Legal i)
    (hopen : (c.step i).isOpen) : c.busy = true ∧ (c.step i).grantId = c.grantId := by
  have hbusy : c.busy = true := by
    obtain hopen | hfire := (h.open_step hlegal hopen).2
    · exact (h.delivers.owner hopen).1
    · exact (busy_of_addrFire hfire).1
  refine ⟨hbusy, ?_⟩
  simp [Channel.step, hbusy]

/-- The transfer of a master that is open after the cycle. -/
theorem Inv.open_of_grantId (h : c.Inv i.addrValid) (hlegal : c.Legal i)
    (hopen : (c.step i).isOpen) {m : Fin n} (hgrant : (c.step i).grantId = m) :
    c.busy = true ∧ c.grantId = m ∧ c.finishes i = false ∧
      (c.isOpen ∨ c.addrFire i m = true) := by
  obtain ⟨hfin, hopened⟩ := h.open_step hlegal hopen
  obtain ⟨hbusy, hsame⟩ := h.grantId_step hlegal hopen
  obtain rfl : c.grantId = m := hsame.symm.trans hgrant
  exact ⟨hbusy, rfl, hfin, hopened⟩

/-- One cycle. The masters' part is in the two hypotheses: an address that is not
accepted stays valid, and the master of an open transfer offers none. -/
theorem Inv.step {addrValid : Fin n → Bool} (h : c.Inv i.addrValid) (hlegal : c.Legal i)
    (hheld : ∀ m, i.addrValid m = true → c.addrFire i m = false → addrValid m = true)
    (hsilent : (c.step i).isOpen → addrValid c.grantId = false) : (c.step i).Inv addrValid := by
  have hone := h.delivers.one
  have hlen : (c.step i).accepted.length = _ := length_accepted
  have hfinished : (c.step i).finished = _ := finished_step
  have hends := (h.holds hlegal).ends
  have hfire : c.addrFire i c.grantId = true → c.accepted.length = c.finished :=
    h.length_eq_of_addrFire
  have hgrant : c.busy = true → (c.step i).grantId = c.grantId := by
    intro hbusy
    simp [Channel.step, hbusy]
  have hopen : (c.step i).isOpen → c.finishes i = false ∧
      c.finished < (c.step i).accepted.length := by
    intro hopen
    have hfin := (h.open_step hlegal hopen).1
    refine ⟨hfin, ?_⟩
    rw [isOpen, hfinished] at hopen
    omega
  refine ⟨⟨?_, ?_, h.received_step hlegal⟩, ?_, ?_, ?_⟩
  · rw [hlen, hfinished]
    cases hf : c.addrFire i c.grantId <;> cases hfin : c.finishes i <;>
      simp only [Bool.toNat_true, Bool.toNat_false, Nat.add_zero]
    · exact hone
    · have hlt := hends hfin
      rw [hlen, hf] at hlt
      simp only [Bool.toNat_false] at hlt
      omega
    · have heq := hfire hf
      omega
    · have heq := hfire hf
      omega
  · intro hnext
    obtain ⟨hfin, hlt⟩ := hopen hnext
    obtain ⟨hbusy, howner⟩ := h.owner_next hlt
    have hsame := (h.holds hlegal).constant hbusy hfin
    refine ⟨hsame.1, ?_⟩
    rw [hsame.2, hfinished, hfin]
    exact howner
  · intro hbusy' hclosed
    cases hbusy : c.busy with
    | false =>
      -- the grant has just been given
      have hreq : hasReq i = true := by
        have hnext : (c.step i).busy = (!c.finishes i && (c.busy || hasReq i)) := rfl
        rw [hnext, hbusy] at hbusy'
        simpa using (Bool.and_eq_true _ _ ▸ hbusy').2
      have hgranted : (c.step i).grantId = c.grant i := by simp [Channel.step, hbusy, hreq]
      rw [hgranted]
      refine hheld _ (addrValid_grant hreq) ?_
      simp [addrFire, connected, hbusy]
    | true =>
      have hfin : c.finishes i = false := by
        by_contra hfin
        simp [Channel.step, hfin] at hbusy'
      have hlt : ¬ c.finished < (c.step i).accepted.length := by
        rw [isOpen, hfinished, hfin] at hclosed
        simpa using hclosed
      have hno : c.addrFire i c.grantId = false := by
        by_contra hf
        rw [hlen, Bool.of_not_eq_false hf, hfire (Bool.of_not_eq_false hf)] at hlt
        simp at hlt
      have hclosed' : ¬ c.isOpen := by
        rw [hlen, hno] at hlt
        simpa [isOpen] using hlt
      rw [hgrant hbusy]
      exact hheld _ (h.offers hbusy hclosed') hno
  · intro hnext
    obtain ⟨-, hlt⟩ := hopen hnext
    rw [hgrant (h.owner_next hlt).1]
    exact hsilent hnext
  · intro k hk
    have hsent : (c.step i).sent =
        if i.respValid && c.respReadyOut i then c.sent ++ [c.finished] else c.sent := rfl
    rw [hsent] at hk
    have hle : c.accepted.length ≤ (c.step i).accepted.length := by rw [hlen]; omega
    split_ifs at hk with hbeat
    · rcases List.mem_append.mp hk with hold | hnew
      · exact Nat.lt_of_lt_of_le (h.sent k hold) hle
      · obtain rfl : k = c.finished := by simpa using hnew
        exact hlegal (Bool.and_eq_true _ _ ▸ hbeat).1
    · exact Nat.lt_of_lt_of_le (h.sent k hk) hle

end Channel

end Bus
