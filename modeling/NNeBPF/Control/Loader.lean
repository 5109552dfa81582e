import NNeBPF.Xdp.Chain

/-!
# The loader

`main` of `xdp.c`: it loads the object, fills `progs` from its table, stores the index 1 in
`nn_idx[0]` and attaches `xdp_prog`.  The two maps of `params.bpf.h` are pinned by name, so loading
reuses the pinned maps where there are some and creates zero-filled ones otherwise; `flow_map` and
`progs` are created anew with each load.  When the loader ends through its cleanup label it removes
the pins, while a `return` in between leaves them.
-/

namespace NNeBPF

/-- `struct bpf_progs_desc`: a program by its name and the slot of `progs` it belongs to. -/
structure BpfProgsDesc where
  name : XdpProgram
  mapProgIdx : S32

/-- The table `progs` of `xdp.c`. -/
def progsTable : List BpfProgsDesc :=
  [⟨.xdpPreprocessing, 0⟩, ⟨.xdpInputLinear, 1⟩, ⟨.xdpInputRelu, 2⟩, ⟨.xdpHiddenLinear, 3⟩,
    ⟨.xdpHiddenRelu, 4⟩, ⟨.xdpOutputLinear, 5⟩]

/-- `progs` as it is created. -/
def emptyProgs : ProgArray := Vector.replicate 1024 none

def updateProgs (progs : ProgArray) (desc : BpfProgsDesc) : ProgArray :=
  BpfMap.ArrayMap.update progs desc.mapProgIdx (some desc.name)

/-- `progs` after the second loop of `main`. -/
def loadedProgs : ProgArray := progsTable.foldl updateProgs emptyProgs

/-- `nn_parameters` and `nn_idx` as they are created: all bytes zero. -/
def NnMaps.zero : NnMaps where
  nnParameters := #v[Net.zero, Net.zero]
  nnIdx := #v[0]

/-- `nn_idx_value` of the loader. -/
def initialNnIdx : S32 := 1

/-- The calls of `main` that can fail, in their order. -/
inductive LoaderCall
  | openObject
  | loadObject
  | findProgram (desc : BpfProgsDesc)
  | programFd (desc : BpfProgsDesc)
  | updateProgs (desc : BpfProgsDesc)
  | updateNnIdx
  | attachXdp

/-- What the kernel keeps of this program: the pinned maps, and the maps of the attached object. -/
structure Host where
  pinned : Option NnMaps
  attached : Option (ProgArray × FlowMap)

def Host.fresh : Host := ⟨none, none⟩

/-- `bpf_map__update_elem(skel->maps.nn_idx, &nn_idx, ..)` with key 0. -/
def NnMaps.setIdx (nn : NnMaps) (idx : S32) : NnMaps :=
  { nn with nnIdx := BpfMap.ArrayMap.update nn.nnIdx 0 idx }

/-- `main` of `xdp.c` up to its wait loop, with the calls in `fails` failing; the attach is one of
them while a program is attached.  The Boolean says whether `xdp_prog` was attached. -/
def loaderMain (fails : LoaderCall → Bool) (host : Host) : Host × Bool :=
  if fails .openObject then (host, false)
  -- A failed load jumps to the cleanup label, which removes the pins.
  else if fails .loadObject then ({ host with pinned := none }, false)
  else
    let nn := host.pinned.getD .zero
    let host := { host with pinned := some nn }
    if progsTable.any fun desc ↦ fails (.findProgram desc) then (host, false)
    else if progsTable.any fun desc ↦ fails (.programFd desc) || fails (.updateProgs desc) then
      (host, false)
    else if fails .updateNnIdx then (host, false)
    else
      let host := { host with pinned := some (nn.setIdx initialNnIdx) }
      if fails .attachXdp then (host, false)
      else ({ host with attached := some (loadedProgs, .empty) }, true)

/-- The end of `main` after its wait loop: the pins are removed and the program is detached. -/
def loaderCleanup (_host : Host) : Host := ⟨none, none⟩

@[simp]
theorem NnMaps.activeIdx_setIdx (nn : NnMaps) (idx : S32) : (nn.setIdx idx).activeIdx = idx := by
  simp [NnMaps.setIdx, NnMaps.activeIdx, BpfMap.ArrayMap.update]

@[simp]
theorem NnMaps.nnParameters_setIdx (nn : NnMaps) (idx : S32) :
    (nn.setIdx idx).nnParameters = nn.nnParameters := rfl

/-- A run of the loader without failures reaches the attach with index 1 selected. -/
theorem loaderMain_of_success (host : Host) :
    loaderMain (fun _ ↦ false) host =
      (⟨some ((host.pinned.getD .zero).setIdx initialNnIdx), some (loadedProgs, .empty)⟩,
        true) := by
  simp [loaderMain]

/-! ## The filled table -/

theorem lookup_updateProgs_of_ne (progs : ProgArray) (desc : BpfProgsDesc) {index : S32}
    (h : index ≠ desc.mapProgIdx) :
    tailCallTarget (updateProgs progs desc) index = tailCallTarget progs index := by
  unfold tailCallTarget updateProgs
  rw [BpfMap.ArrayMap.lookup_update_of_ne _ h]

theorem lookup_updateProgs_self (progs : ProgArray) (desc : BpfProgsDesc)
    (h : desc.mapProgIdx.toNat < 1024) :
    tailCallTarget (updateProgs progs desc) desc.mapProgIdx = some desc.name := by
  unfold tailCallTarget updateProgs
  rw [BpfMap.ArrayMap.lookup_update_self _ h]
  rfl

/-- Later entries of a table with distinct slots do not disturb an earlier one. -/
theorem tailCallTarget_foldl_updateProgs (table : List BpfProgsDesc) (progs : ProgArray)
    (desc : BpfProgsDesc) (hdesc : desc ∈ table)
    (hnodup : (table.map BpfProgsDesc.mapProgIdx).Nodup)
    (hrange : ∀ other ∈ table, other.mapProgIdx.toNat < 1024) :
    tailCallTarget (table.foldl updateProgs progs) desc.mapProgIdx = some desc.name := by
  induction table using List.reverseRecOn with
  | nil => cases hdesc
  | append_singleton table last ih =>
    rw [List.foldl_append, List.foldl_cons, List.foldl_nil]
    rw [List.map_append, List.nodup_append] at hnodup
    obtain ⟨hinit, -, hdisjoint⟩ := hnodup
    rcases List.mem_append.mp hdesc with hmem | hmem
    · have hne : desc.mapProgIdx ≠ last.mapProgIdx :=
        hdisjoint _ (List.mem_map_of_mem hmem) _ (by simp)
      rw [lookup_updateProgs_of_ne _ _ hne]
      exact ih hmem hinit fun other hother ↦ hrange other (by simp [hother])
    · rw [List.mem_singleton] at hmem
      subst hmem
      exact lookup_updateProgs_self _ _ (hrange desc (by simp))

/-- The program of every table entry is found in its slot. -/
theorem tailCallTarget_loadedProgs {desc : BpfProgsDesc} (hdesc : desc ∈ progsTable) :
    tailCallTarget loadedProgs desc.mapProgIdx = some desc.name :=
  tailCallTarget_foldl_updateProgs progsTable emptyProgs desc hdesc (by decide) (by decide)

end NNeBPF
