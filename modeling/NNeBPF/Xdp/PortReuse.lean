import NNeBPF.Control.HotUpdating
import NNeBPF.Flow.Creation
import NNeBPF.Xdp.PacketLengths

/-!
# Port reuse

Neither the end of a detection nor the start of a connection resets the entry of a 4-tuple.  A new
connection on a known flow continues the entry: counts are added, extremes are joined, and the time
since the last packet of the old connection counts as a gap.  So the features at a FIN are those of
the connection alone only if its flow was never seen before.
-/

namespace NNeBPF

open Mlp

/-! ## Continuing an entry -/

/-- An entry after some more packets. -/
def resume (old : FlowAttribute) (packets : List Arrival) : FlowAttribute :=
  packets.foldl (fun attr packet ↦ packet.record attr) old

theorem replay_append {front : List Arrival} {old : FlowAttribute} (h : replay front = some old)
    (packets : List Arrival) : replay (front ++ packets) = some (resume old packets) := by
  cases front with
  | nil => cases h
  | cons first later =>
    rw [replay, Option.some.injEq] at h
    rw [List.cons_append, replay, ← List.cons_append, List.foldl_append, h]
    rfl

/-- The features of an entry that a connection continues: `own` is the entry that the connection
alone would have made, and `first` its first packet. -/
def continued (old : FlowAttribute) (first : Arrival) (own : FlowAttribute) : Vector S64 6 :=
  #v[unsignedMax old.maxPacketLength own.maxPacketLength,
    unsignedMax (unsignedMax old.maxDuration (old.duration first.ktime)) own.maxDuration,
    unsignedMin old.minPacketLength own.minPacketLength, own.dstPort,
    old.headerLength + own.headerLength, old.numPacket + own.numPacket]

/-- How the continued entry `total` is made up of the old one and the connection's own. -/
structure Continues (old : FlowAttribute) (first : Arrival) (own total : FlowAttribute) : Prop where
  maxPacketLength :
    total.maxPacketLength = unsignedMax old.maxPacketLength own.maxPacketLength
  maxDuration : total.maxDuration =
    unsignedMax (unsignedMax old.maxDuration (old.duration first.ktime)) own.maxDuration
  minPacketLength :
    total.minPacketLength = unsignedMin old.minPacketLength own.minPacketLength
  dstPort : total.dstPort = own.dstPort
  headerLength : total.headerLength = old.headerLength + own.headerLength
  numPacket : total.numPacket = old.numPacket + own.numPacket
  lastPacketTime : total.lastPacketTime = own.lastPacketTime

section

variable {old own total : FlowAttribute} {first : Arrival}

theorem Continues.features (h : Continues old first own total) :
    total.features = continued old first own := by
  unfold FlowAttribute.features continued
  rw [h.maxPacketLength, h.maxDuration, h.minPacketLength, h.dstPort, h.headerLength, h.numPacket]

/-- The first packet of a connection meets the old entry. -/
theorem continues_first (hport : old.dstPort = first.newEntry.dstPort)
    (hmin : old.minPacketLength.toNat ≤ 2 ^ 62 - 1) :
    Continues old first (first.record first.newEntry) (first.record old) where
  maxPacketLength := by
    have hown : (first.record first.newEntry).maxPacketLength =
        unsignedMax 0 first.packetLength := rfl
    rw [hown, unsignedMax_zero_left]
    rfl
  maxDuration := by
    have hzero : first.newEntry.duration first.ktime = 0 := BitVec.sub_self _
    have hown : (first.record first.newEntry).maxDuration =
        unsignedMax 0 (first.newEntry.duration first.ktime) := rfl
    rw [hown, hzero, unsignedMax_zero_left, unsignedMax_zero_right]
    rfl
  minPacketLength := by
    have hown : (first.record first.newEntry).minPacketLength =
        unsignedMin 0x3fffffffffffffff first.packetLength := rfl
    have hinitial : unsignedMin old.minPacketLength 0x3fffffffffffffff = old.minPacketLength := by
      apply BitVec.eq_of_toNat_eq
      rw [toNat_unsignedMin]
      exact min_eq_left hmin
    rw [hown, ← unsignedMin_assoc, hinitial]
    rfl
  dstPort := hport
  headerLength := by
    have hown : (first.record first.newEntry).headerLength =
        0 + first.frame.tcpHdr.headerBytes := rfl
    rw [hown, zero_add]
    rfl
  numPacket := by
    have hown : (first.record first.newEntry).numPacket = 0 + 1 := rfl
    rw [hown, zero_add]
    rfl
  lastPacketTime := rfl

/-- One more packet on both sides. -/
theorem Continues.record (h : Continues old first own total) (packet : Arrival) :
    Continues old first (packet.record own) (packet.record total) where
  maxPacketLength := by
    have hstep (attr : FlowAttribute) : (packet.record attr).maxPacketLength =
        unsignedMax attr.maxPacketLength packet.packetLength := rfl
    rw [hstep, hstep, h.maxPacketLength, unsignedMax_assoc]
  maxDuration := by
    have hstep (attr : FlowAttribute) : (packet.record attr).maxDuration =
        unsignedMax attr.maxDuration (packet.ktime.packetTime - attr.lastPacketTime) := rfl
    rw [hstep, hstep, h.maxDuration, h.lastPacketTime, unsignedMax_assoc]
  minPacketLength := by
    have hstep (attr : FlowAttribute) : (packet.record attr).minPacketLength =
        unsignedMin attr.minPacketLength packet.packetLength := rfl
    rw [hstep, hstep, h.minPacketLength, unsignedMin_assoc]
  dstPort := h.dstPort
  headerLength := by
    have hstep (attr : FlowAttribute) : (packet.record attr).headerLength =
        attr.headerLength + packet.frame.tcpHdr.headerBytes := rfl
    rw [hstep, hstep, h.headerLength, BitVec.add_assoc]
  numPacket := by
    have hstep (attr : FlowAttribute) : (packet.record attr).numPacket = attr.numPacket + 1 := rfl
    rw [hstep, hstep, h.numPacket, BitVec.add_assoc]
  lastPacketTime := rfl

theorem continues_foldl (h : Continues old first own total) (packets : List Arrival) :
    Continues old first (resume own packets) (resume total packets) := by
  induction packets generalizing own total with
  | nil => exact h
  | cons packet packets ih => exact ih (h.record packet)

end

/-- A connection that continues an entry, packet by packet. -/
theorem continues_resume {old : FlowAttribute} {first : Arrival}
    (hport : old.dstPort = first.newEntry.dstPort)
    (hmin : old.minPacketLength.toNat ≤ 2 ^ 62 - 1) (later : List Arrival) :
    ∃ own, replay (first :: later) = some own ∧
      Continues old first own (resume old (first :: later)) :=
  ⟨resume (first.record first.newEntry) later, rfl,
    continues_foldl (continues_first hport hmin) later⟩

/-! ## The same packets at another time -/

/-- A packet with the same headers at a time shifted by `shift`. -/
structure SamePacket (shift : U64) (left right : Arrival) : Prop where
  ipHdr : left.frame.ipHdr = right.frame.ipHdr
  tcpHdr : left.frame.tcpHdr = right.frame.tcpHdr
  time : right.ktime.packetTime = left.ktime.packetTime + shift

/-- The same headers and flags, and the same times between the packets. -/
def SamePackets (left right : List Arrival) : Prop :=
  ∃ shift, List.Forall₂ (SamePacket shift) left right

/-- Two entries with the same features, at times that are shifted. -/
structure Shifted (shift : U64) (left right : FlowAttribute) : Prop where
  features : left.features = right.features
  lastPacketTime : right.lastPacketTime = left.lastPacketTime + shift

section

variable {shift : U64} {left right : Arrival} {leftAttr rightAttr : FlowAttribute}

theorem features_eq_iff {attr other : FlowAttribute} :
    attr.features = other.features ↔
      attr.maxPacketLength = other.maxPacketLength ∧ attr.maxDuration = other.maxDuration ∧
        attr.minPacketLength = other.minPacketLength ∧ attr.dstPort = other.dstPort ∧
        attr.headerLength = other.headerLength ∧ attr.numPacket = other.numPacket := by
  simp [FlowAttribute.features]

theorem shifted_newEntry (h : SamePacket shift left right) :
    Shifted shift left.newEntry right.newEntry := by
  constructor
  · have hport : left.newEntry.dstPort = right.newEntry.dstPort :=
      congrArg (fun tcp : TcpHdr ↦ (bpfNtohs tcp.dest).setWidth 64) h.tcpHdr
    exact features_eq_iff.mpr ⟨rfl, rfl, rfl, hport, rfl, rfl⟩
  · exact h.time

/-- Recording the same packet keeps the features the same. -/
theorem Shifted.record (hattr : Shifted shift leftAttr rightAttr)
    (h : SamePacket shift left right) :
    Shifted shift (left.record leftAttr) (right.record rightAttr) := by
  obtain ⟨hmaxLen, hmaxDur, hminLen, hport, hheader, hnum⟩ := features_eq_iff.mp hattr.features
  have hlength : left.packetLength = right.packetLength := congrArg IpHdr.packetLength h.ipHdr
  have hduration : leftAttr.duration left.ktime = rightAttr.duration right.ktime := by
    unfold FlowAttribute.duration
    rw [h.time, hattr.lastPacketTime, add_sub_add_right_eq_sub]
  constructor
  · apply features_eq_iff.mpr
    simp only [Arrival.record, recordPacket, hlength, hduration, hmaxLen, hmaxDur, hminLen, hport,
      hheader, hnum, h.tcpHdr, true_and]
  · exact h.time

theorem shifted_resume (hattr : Shifted shift leftAttr rightAttr) {lefts rights : List Arrival}
    (h : List.Forall₂ (SamePacket shift) lefts rights) :
    Shifted shift (resume leftAttr lefts) (resume rightAttr rights) := by
  induction h generalizing leftAttr rightAttr with
  | nil => exact hattr
  | cons hpacket _ ih => exact ih (hattr.record hpacket)

end

/-- The same connection alone makes the same features at any time. -/
theorem features_replay_of_samePackets {left right : List Arrival} (h : SamePackets left right) :
    (replay left).map FlowAttribute.features = (replay right).map FlowAttribute.features := by
  obtain ⟨shift, hpackets⟩ := h
  cases hpackets with
  | nil => rfl
  | cons hfirst hlater =>
    have hshifted := shifted_resume ((shifted_newEntry hfirst).record hfirst) hlater
    exact congrArg some hshifted.features

/-! ## The detection at the end of a connection -/

/-- The feature vectors that `xdp_preprocessing` hands to `standard_scaler` for the flow `f`. -/
def scalerInputs (f : Flow) (executions : List Execution) : List (Vector S64 6) :=
  executions.filterMap fun execution ↦
    if execution.program = .xdpPreprocessing then
      (execution.start.lookup f).map FlowAttribute.features
    else none

/-- What the packet hands to the scaler and prints when it comes after a run. -/
def verdict (f : Flow) (arrivals : List Arrival) (packet : Arrival) :
    List (Vector S64 6) × List ℕ :=
  let executions := packet.executions (mapAfter arrivals)
  (scalerInputs f executions, (printedLines executions).map Line.label)

section

variable {f : Flow} {history init : List Arrival} {fin : Arrival}

theorem scalerInputs_of_closes {flowMap : FlowMap} {attr : FlowAttribute} {net : Net}
    (hbelongs : fin.belongsTo f = true) (hcloses : fin.frame.tcpHdr.closes = true)
    (hnet : BpfMap.ArrayMap.lookup fin.nn.nnParameters fin.nn.activeIdx = some net)
    (hattr : (fin.update f flowMap).lookup f = some attr) :
    scalerInputs f (fin.executions flowMap) = [attr.features] := by
  obtain ⟨hframe, hhost⟩ := belongsTo_iff.mp hbelongs
  have hstart : ((fin.update f flowMap).modify f fun _ ↦ pinned fin.nn attr).lookup f =
      some (pinned fin.nn attr) := lookup_modify_const hattr _
  unfold Arrival.update Arrival.packetLength at hstart
  unfold scalerInputs Arrival.executions
  rw [receive_of_closes hframe hhost hcloses fin.ktime fin.nn hnet hattr]
  -- Only the second of the seven executions is `xdp_preprocessing`.
  simp only [detectionChain, EntryExecution.inMap, List.map_cons, List.map_nil,
    List.filterMap_cons, List.filterMap_nil, reduceCtorEq, if_true, if_false, hstart,
    Option.map_some]
  rfl

theorem dstPort_newEntry {arrival : Arrival} (h : arrival.belongsTo f = true) :
    arrival.newEntry.dstPort = Handling.dstPortOf f := by
  obtain ⟨hframe, hhost⟩ := belongsTo_iff.mp h
  exact Handling.dstPort_newFlowAttribute ⟨arrival.frame, arrival.ktime, f, hframe, hhost⟩

theorem dstPort_replay {packets : List Arrival} {attr : FlowAttribute}
    (hall : ∀ packet ∈ packets, packet.belongsTo f = true) (hattr : replay packets = some attr) :
    attr.dstPort = Handling.dstPortOf f := by
  have hresume (old : FlowAttribute) (later : List Arrival) :
      (resume old later).dstPort = old.dstPort := by
    induction later generalizing old with
    | nil => rfl
    | cons packet later ih => exact ih (packet.record old)
  cases packets with
  | nil => cases hattr
  | cons first later =>
    rw [replay, Option.some.injEq] at hattr
    rw [← hattr]
    exact (hresume _ _).trans (dstPort_newEntry (hall first (by simp)))

/-- The detection at the FIN of a connection is that of the entry which all packets of the flow
make, those of the history included. -/
theorem verdict_of_connection
    (hroom : f ∈ (mapAfter history).keys ∨ (mapAfter history).keys.card < maxPacketReacord)
    (hall : ∀ packet ∈ init ++ [fin], packet.belongsTo f = true)
    (hcloses : fin.frame.tcpHdr.closes = true) {net : Net}
    (hnet : BpfMap.ArrayMap.lookup fin.nn.nnParameters fin.nn.activeIdx = some net) :
    ∃ total, replay (history.filter (Arrival.belongsTo f) ++ (init ++ [fin])) = some total ∧
      verdict f (history ++ init) fin =
        ([total.features], [label (referenceNetwork net total.features)]) := by
  have hfin : fin.belongsTo f = true := hall fin (by simp)
  obtain ⟨hframe, hhost⟩ := belongsTo_iff.mp hfin
  have hinit : ∀ packet ∈ init, packet.belongsTo f = true :=
    fun packet hpacket ↦ hall packet (by simp [hpacket])
  obtain ⟨updated, hupdated⟩ :
      ∃ updated, (fin.update f (mapAfter (history ++ init))).lookup f = some updated :=
    ⟨_, lookup_updateFlowAttribute_self (room_append hroom hinit) _ _ _⟩
  have hcore : ((mapAfter ((history ++ init) ++ [fin])).lookup f).map FlowAttribute.core =
      some updated.core := by
    rw [mapAfter_concat, map_core_lookup_process hfin, hupdated]
    rfl
  obtain ⟨later, hlater, hlaterCore⟩ := Option.map_eq_some_iff.mp hcore
  have hfilter : ((history ++ init) ++ [fin]).filter (Arrival.belongsTo f) =
      history.filter (Arrival.belongsTo f) ++ (init ++ [fin]) := by
    rw [List.append_assoc, List.filter_append, List.filter_eq_self.mpr hall]
  have hreplay := replay_filter_of_lookup hlater
  rw [hfilter, hlaterCore] at hreplay
  refine ⟨updated.core, hreplay, ?_⟩
  have hlines := printedLines_of_closes hframe hhost hcloses fin.ktime fin.nn hnet hupdated
  have hinputs := scalerInputs_of_closes hfin hcloses hnet hupdated
  have hprinted : printedLines (fin.executions (mapAfter (history ++ init))) =
      [outputLine fin.ktime (detect net (pinned fin.nn updated))] := hlines
  rw [verdict, hinputs, hprinted, List.map_singleton, label_detect]
  rfl

end

/-- The features that a connection on `f` reaches after a history: those of the connection alone if
the flow was never seen, and otherwise those that continue the old entry. -/
def expectedFeatures (f : Flow) (history connection : List Arrival) : Option (Vector S64 6) :=
  match replay (history.filter (Arrival.belongsTo f)), connection with
  | some old, first :: _ => (replay connection).map (continued old first)
  | _, _ => (replay connection).map FlowAttribute.features

section

variable {f : Flow} {history connection : List Arrival}

theorem expectedFeatures_of_unseen (h : history.filter (Arrival.belongsTo f) = []) :
    expectedFeatures f history connection = (replay connection).map FlowAttribute.features := by
  simp only [expectedFeatures, h, replay]

/-- All packets of the flow together make the expected features. -/
theorem features_replay_append (hall : ∀ packet ∈ connection, packet.belongsTo f = true)
    (hne : connection ≠ []) :
    (replay (history.filter (Arrival.belongsTo f) ++ connection)).map FlowAttribute.features =
      expectedFeatures f history connection := by
  cases hold : replay (history.filter (Arrival.belongsTo f)) with
  | none =>
    rw [replay_eq_none_iff] at hold
    rw [expectedFeatures_of_unseen hold, hold, List.nil_append]
  | some old =>
    obtain ⟨first, later, rfl⟩ := List.exists_cons_of_ne_nil hne
    have hseen : ∀ packet ∈ history.filter (Arrival.belongsTo f), packet.belongsTo f = true :=
      fun packet hpacket ↦ (List.mem_filter.mp hpacket).2
    have hport : old.dstPort = first.newEntry.dstPort := by
      rw [dstPort_replay hseen hold, dstPort_newEntry (hall first (by simp))]
    have hmin : old.minPacketLength.toNat ≤ 2 ^ 62 - 1 :=
      (unsigned_extremes hold).2.2 (Set.mem_insert _ _)
    obtain ⟨own, hown, hcontinues⟩ := continues_resume hport hmin later
    rw [replay_append hold, Option.map_some, hcontinues.features]
    simp only [expectedFeatures, hold, hown, Option.map_some]

/-- A connection on a flow that was seen before does not reach the features of the connection
alone: the old packets are counted. -/
theorem expectedFeatures_ne_of_seen (hseen : history.filter (Arrival.belongsTo f) ≠ [])
    (hlength : history.length < 2 ^ 57) (hne : connection ≠ []) :
    expectedFeatures f history connection ≠ (replay connection).map FlowAttribute.features := by
  obtain ⟨old, hold⟩ : ∃ old, replay (history.filter (Arrival.belongsTo f)) = some old :=
    Option.ne_none_iff_exists'.mp fun hnone ↦ hseen (replay_eq_none_iff.mp hnone)
  obtain ⟨own, hown⟩ : ∃ own, replay connection = some own :=
    Option.ne_none_iff_exists'.mp fun hnone ↦ hne (replay_eq_none_iff.mp hnone)
  obtain ⟨first, later, rfl⟩ := List.exists_cons_of_ne_nil hne
  simp only [expectedFeatures, hold, hown, Option.map_some]
  intro heq
  have hcount : old.numPacket + own.numPacket = own.numPacket :=
    congrArg (fun features : Vector S64 6 ↦ features.get 5) (Option.some.inj heq)
  have hzero : old.numPacket = 0 := add_eq_right.mp hcount
  have hshort := List.length_filter_le (Arrival.belongsTo f) history
  have hpos := List.length_pos_of_ne_nil hseen
  have hnat : old.numPacket.toNat = 0 := congrArg BitVec.toNat hzero
  rw [numPacket_replay hold, BitVec.toNat_ofNat] at hnat
  omega

/-- The detection at the FIN of a connection works on the expected features. -/
theorem verdict_eq_expected {init : List Arrival} {fin : Arrival}
    (hroom : f ∈ (mapAfter history).keys ∨ (mapAfter history).keys.card < maxPacketReacord)
    (hall : ∀ packet ∈ init ++ [fin], packet.belongsTo f = true)
    (hcloses : fin.frame.tcpHdr.closes = true) {net : Net}
    (hnet : BpfMap.ArrayMap.lookup fin.nn.nnParameters fin.nn.activeIdx = some net) :
    ∃ x, expectedFeatures f history (init ++ [fin]) = some x ∧
      verdict f (history ++ init) fin = ([x], [label (referenceNetwork net x)]) := by
  obtain ⟨total, htotal, hverdict⟩ := verdict_of_connection hroom hall hcloses hnet
  refine ⟨total.features, ?_, hverdict⟩
  rw [← features_replay_append hall (by simp), htotal]
  rfl

end

theorem closes_of_samePackets {leftInit rightInit : List Arrival} {leftFin rightFin : Arrival}
    (h : SamePackets (leftInit ++ [leftFin]) (rightInit ++ [rightFin])) :
    leftFin.frame.tcpHdr = rightFin.frame.tcpHdr := by
  obtain ⟨shift, hpackets⟩ := h
  have hreverse := List.rel_reverse hpackets
  rw [List.reverse_concat, List.reverse_concat] at hreverse
  cases hreverse with
  | cons hlast _ => exact hlast.tcpHdr

/-- The same connection on `f` after two histories.  In each of them the FIN is judged by the
features that continue the old entry of `f`, if there is one.  So they are the same if `f` was never
seen, and they differ if it was seen in one of the histories only. -/
theorem verdict_after_histories {f : Flow}
    {leftHistory rightHistory leftInit rightInit : List Arrival}
    {leftFin rightFin : Arrival}
    (hlengths : leftHistory.length < 2 ^ 57 ∧ rightHistory.length < 2 ^ 57)
    (hleftRoom : f ∈ (mapAfter leftHistory).keys ∨
      (mapAfter leftHistory).keys.card < maxPacketReacord)
    (hrightRoom : f ∈ (mapAfter rightHistory).keys ∨
      (mapAfter rightHistory).keys.card < maxPacketReacord)
    (hsame : SamePackets (leftInit ++ [leftFin]) (rightInit ++ [rightFin]))
    (hleft : ∀ packet ∈ leftInit ++ [leftFin], packet.belongsTo f = true)
    (hright : ∀ packet ∈ rightInit ++ [rightFin], packet.belongsTo f = true)
    (hcloses : leftFin.frame.tcpHdr.closes = true) {net : Net}
    (hleftNet : BpfMap.ArrayMap.lookup leftFin.nn.nnParameters leftFin.nn.activeIdx = some net)
    (hrightNet :
      BpfMap.ArrayMap.lookup rightFin.nn.nnParameters rightFin.nn.activeIdx = some net) :
    ∃ x y, expectedFeatures f leftHistory (leftInit ++ [leftFin]) = some x ∧
      expectedFeatures f rightHistory (rightInit ++ [rightFin]) = some y ∧
      verdict f (leftHistory ++ leftInit) leftFin = ([x], [label (referenceNetwork net x)]) ∧
      verdict f (rightHistory ++ rightInit) rightFin = ([y], [label (referenceNetwork net y)]) ∧
      (replay (leftInit ++ [leftFin])).map FlowAttribute.features =
        (replay (rightInit ++ [rightFin])).map FlowAttribute.features ∧
      (leftHistory.filter (Arrival.belongsTo f) = [] →
        rightHistory.filter (Arrival.belongsTo f) = [] → x = y) ∧
      (¬ (leftHistory.filter (Arrival.belongsTo f) = [] ↔
        rightHistory.filter (Arrival.belongsTo f) = []) → x ≠ y) := by
  have hrightCloses : rightFin.frame.tcpHdr.closes = true := by
    rw [← closes_of_samePackets hsame]
    exact hcloses
  obtain ⟨x, hx, hleftVerdict⟩ := verdict_eq_expected hleftRoom hleft hcloses hleftNet
  obtain ⟨y, hy, hrightVerdict⟩ := verdict_eq_expected hrightRoom hright hrightCloses hrightNet
  have hown := features_replay_of_samePackets hsame
  refine ⟨x, y, hx, hy, hleftVerdict, hrightVerdict, hown, ?_, ?_⟩
  · intro hleftUnseen hrightUnseen
    rw [expectedFeatures_of_unseen hleftUnseen] at hx
    rw [expectedFeatures_of_unseen hrightUnseen, ← hown, hx] at hy
    exact Option.some.inj hy
  · intro hone heq
    subst heq
    by_cases hleftSeen : leftHistory.filter (Arrival.belongsTo f) = []
    · have hrightSeen : rightHistory.filter (Arrival.belongsTo f) ≠ [] :=
        fun hunseen ↦ hone ⟨fun _ ↦ hunseen, fun _ ↦ hleftSeen⟩
      rw [expectedFeatures_of_unseen hleftSeen, hown] at hx
      exact expectedFeatures_ne_of_seen hrightSeen hlengths.2 (by simp) (hy.trans hx.symm)
    · have hrightSeen : rightHistory.filter (Arrival.belongsTo f) = [] := by
        by_contra hseen
        exact hone ⟨fun h ↦ absurd h hleftSeen, fun h ↦ absurd h hseen⟩
      rw [expectedFeatures_of_unseen hrightSeen, ← hown] at hy
      exact expectedFeatures_ne_of_seen hleftSeen hlengths.1 (by simp) (hx.trans hy.symm)

/-! ## A reused port -/

/-- The maps after one run of `hot_updating`. -/
def shippedMaps : NnMaps := hotUpdate shippedNet NnMaps.zero

/-- A packet of one 4-tuple of the monitored host at a given time. -/
def packetAt (time : U64) (fin : Bool) : Arrival :=
  ⟨hostFrame 7 40 fin, ⟨time, time, time, time, time⟩, shippedMaps⟩

theorem belongsTo_packetAt (time : U64) (fin : Bool) :
    (packetAt time fin).belongsTo (hostFlow 7) = true :=
  belongsTo_iff.mpr ⟨flowTuple_hostFrame 7 40 fin, monitored_hostFlow 7⟩

theorem belongsTo_connection {start stop : U64} {packet : Arrival}
    (h : packet ∈ [packetAt start false] ++ [packetAt stop true]) :
    packet.belongsTo (hostFlow 7) = true := by
  rw [List.mem_append, List.mem_singleton, List.mem_singleton] at h
  obtain rfl | rfl := h
  · exact belongsTo_packetAt start false
  · exact belongsTo_packetAt stop true

theorem lookup_shippedMaps :
    BpfMap.ArrayMap.lookup shippedMaps.nnParameters shippedMaps.activeIdx = some shippedNet :=
  lookup_hotUpdate_activeIdx shippedNet (Or.inl rfl)

theorem samePackets_packetAt :
    SamePackets ([packetAt 10 false] ++ [packetAt 12 true])
      ([packetAt 20 false] ++ [packetAt 22 true]) :=
  ⟨10, .cons ⟨rfl, rfl, rfl⟩ (.cons ⟨rfl, rfl, rfl⟩ .nil)⟩

/-- A connection of a SYN and a FIN twice on an empty map. -/
theorem verdict_after_histories_fresh :
    ∃ x, verdict (hostFlow 7) ([] ++ [packetAt 10 false]) (packetAt 12 true) =
        ([x], [label (referenceNetwork shippedNet x)]) ∧
      verdict (hostFlow 7) ([] ++ [packetAt 20 false]) (packetAt 22 true) =
        ([x], [label (referenceNetwork shippedNet x)]) := by
  have hroom : hostFlow 7 ∈ (mapAfter []).keys ∨ (mapAfter []).keys.card < maxPacketReacord :=
    Or.inr (by decide)
  have hlengths : ([] : List Arrival).length < 2 ^ 57 ∧ ([] : List Arrival).length < 2 ^ 57 := by
    decide
  obtain ⟨x, y, -, -, hleft, hright, -, hsame, -⟩ :=
    verdict_after_histories hlengths hroom hroom samePackets_packetAt
      (fun _ hmem ↦ belongsTo_connection hmem) (fun _ hmem ↦ belongsTo_connection hmem)
      (closes_hostFrame 7 40 true) lookup_shippedMaps lookup_shippedMaps
  have heq : x = y := hsame rfl rfl
  rw [← heq] at hright
  exact ⟨x, hleft, hright⟩

/-- The same connection on a flow that was never seen and on one whose last connection was closed:
the FIN is judged by different features. -/
theorem verdict_ne_after_closed_connection :
    (verdict (hostFlow 7) ([] ++ [packetAt 10 false]) (packetAt 12 true)).1 ≠
      (verdict (hostFlow 7) ([packetAt 1 true] ++ [packetAt 20 false]) (packetAt 22 true)).1 := by
  have hfreshRoom : hostFlow 7 ∈ (mapAfter []).keys ∨
      (mapAfter []).keys.card < maxPacketReacord := Or.inr (by decide)
  have hreusedRoom : hostFlow 7 ∈ (mapAfter [packetAt 1 true]).keys ∨
      (mapAfter [packetAt 1 true]).keys.card < maxPacketReacord := by
    have hall : ∀ packet ∈ [packetAt 1 true], packet.belongsTo (hostFlow 7) = true := by
      intro packet hmem
      rw [List.mem_singleton.mp hmem]
      exact belongsTo_packetAt 1 true
    exact room_append hfreshRoom hall
  obtain ⟨x, hx, hfresh⟩ := verdict_eq_expected hfreshRoom
    (fun _ hmem ↦ belongsTo_connection hmem)
    (closes_hostFrame 7 40 true) lookup_shippedMaps
  obtain ⟨y, hy, hreused⟩ := verdict_eq_expected hreusedRoom
    (fun _ hmem ↦ belongsTo_connection hmem)
    (closes_hostFrame 7 40 true) lookup_shippedMaps
  have hseen : [packetAt 1 true].filter (Arrival.belongsTo (hostFlow 7)) ≠ [] := by
    rw [List.filter_cons_of_pos (belongsTo_packetAt 1 true)]
    exact List.cons_ne_nil _ _
  intro heq
  have hxy : x = y := by
    rw [hfresh, hreused] at heq
    exact List.singleton_inj.mp heq
  rw [expectedFeatures_of_unseen List.filter_nil,
    features_replay_of_samePackets samePackets_packetAt, hxy] at hx
  exact expectedFeatures_ne_of_seen hseen (by decide) (by simp) (hy.trans hx.symm)

end NNeBPF
