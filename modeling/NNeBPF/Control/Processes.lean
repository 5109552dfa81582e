import NNeBPF.Control.FailingUpdate
import NNeBPF.Library.Interleaving
import NNeBPF.Library.PinnedObjects
import NNeBPF.Xdp.Chain

/-!
# Processes that share the pinned maps

Any number of processes run `xdp.c` and `hot_updating.c`.  They find `nn_parameters` and `nn_idx`
under their names in `/sys/fs/bpf`: loading reuses a pinned map or creates and pins one, one map
after the other, a failed load takes back the pins that it has made, and the cleanup label removes
both names whatever they stand for.  An open descriptor goes on to mean the map that was found when
it was opened, so a process can work with a map that has lost its name.

One call is one atomic step.  The kernel attaches one program to the interface, and a link ends with
its process.
-/

namespace NNeBPF

open PinnedObjects (Store)

/-! ## The maps -/

/-- The map objects that a loader works with. -/
structure NnMapIds where
  nnParameters : ℕ
  nnIdx : ℕ

/-- All objects of the two maps, and their names. -/
structure NnStores where
  nnParameters : Store (BpfMap.ArrayMap Net 2)
  nnIdx : Store (BpfMap.ArrayMap S32 1)

namespace NnStores

/-- What a program reads that was loaded with these maps. -/
def maps (stores : NnStores) (ids : NnMapIds) : NnMaps where
  nnParameters := stores.nnParameters.content ids.nnParameters
  nnIdx := stores.nnIdx.content ids.nnIdx

/-- The maps of two descriptors; nothing is read through one that is invalid. -/
def mapsOf (stores : NnStores) (nnParametersFd nnIdxFd : Option ℕ) : NnMaps :=
  stores.maps ⟨nnParametersFd.getD 0, nnIdxFd.getD 0⟩

/-- New contents for the maps of two descriptors. -/
def writeTo (stores : NnStores) (nnParametersFd nnIdxFd : Option ℕ) (nn : NnMaps) : NnStores where
  nnParameters := stores.nnParameters.writeTo nnParametersFd nn.nnParameters
  nnIdx := stores.nnIdx.writeTo nnIdxFd nn.nnIdx

/-- A failed load unpins the maps that it has pinned itself. -/
def takeBack (stores : NnStores) (pinnedParameters pinnedIdx : Bool) : NnStores where
  nnParameters := if pinnedParameters then stores.nnParameters.unpin else stores.nnParameters
  nnIdx := if pinnedIdx then stores.nnIdx.unpin else stores.nnIdx

end NnStores

/-! ## Loaders -/

/-- The next call of `main` of `xdp.c`, with the maps that the process has, and which of them it has
pinned itself as long as its load can fail. -/
inductive LoaderPc
  | openObject
  | createNnParameters
  | createNnIdx (nnParameters : ℕ) (pinnedParameters : Bool)
  | loadProgs (ids : NnMapIds) (pinnedParameters pinnedIdx : Bool)
  | fillProgs (ids : NnMapIds)
  | updateNnIdx (ids : NnMapIds)
  | attachXdp (ids : NnMapIds)
  | wait (ids : NnMapIds)
  | removeNnParameters
  | removeNnIdx
  | destroy
  | ended

/-- The program on the interface: the process that holds its link, and the maps of its object. -/
structure Attachment where
  pid : ℕ
  ids : NnMapIds
  flowMap : FlowMap

/-- Where `main` goes on after its next call. -/
def loaderNext (fails : LoaderCall → Bool) (attached : Option Attachment) (stores : NnStores) :
    LoaderPc → LoaderPc
  | .openObject => if fails .openObject then .ended else .createNnParameters
  | .createNnParameters =>
    if fails .loadObject then .removeNnParameters
    else .createNnIdx stores.nnParameters.reuseId stores.nnParameters.pin.isNone
  | .createNnIdx nnParameters pinnedParameters =>
    if fails .loadObject then .removeNnParameters
    else
      .loadProgs ⟨nnParameters, stores.nnIdx.reuseId⟩ pinnedParameters stores.nnIdx.pin.isNone
  | .loadProgs ids _ _ => if fails .loadObject then .removeNnParameters else .fillProgs ids
  | .fillProgs ids =>
    if progsTable.any fun desc ↦
        fails (.findProgram desc) || fails (.programFd desc) || fails (.updateProgs desc) then
      .ended
    else .updateNnIdx ids
  | .updateNnIdx ids => if fails .updateNnIdx then .ended else .attachXdp ids
  -- The interface has room for one link.
  | .attachXdp ids => if fails .attachXdp || attached.isSome then .ended else .wait ids
  | .wait _ => .removeNnParameters
  | .removeNnParameters => .removeNnIdx
  | .removeNnIdx => .destroy
  | .destroy => .ended
  | .ended => .ended

/-- What the next call of `main` does to the two maps. -/
def loaderStores (fails : LoaderCall → Bool) (stores : NnStores) : LoaderPc → NnStores
  | .createNnParameters =>
    if fails .loadObject then stores
    else { stores with nnParameters := stores.nnParameters.reuse NnMaps.zero.nnParameters }
  | .createNnIdx _ pinnedParameters =>
    if fails .loadObject then stores.takeBack pinnedParameters false
    else { stores with nnIdx := stores.nnIdx.reuse NnMaps.zero.nnIdx }
  | .loadProgs _ pinnedParameters pinnedIdx =>
    if fails .loadObject then stores.takeBack pinnedParameters pinnedIdx else stores
  | .updateNnIdx ids =>
    if fails .updateNnIdx then stores
    else stores.writeTo none (some ids.nnIdx) ((stores.maps ids).setIdx initialNnIdx)
  | .removeNnParameters => { stores with nnParameters := stores.nnParameters.unpin }
  | .removeNnIdx => { stores with nnIdx := stores.nnIdx.unpin }
  | _ => stores

/-- The program on the interface after a process has ended. -/
def detach (pid : ℕ) (attached : Option Attachment) : Option Attachment :=
  attached.filter fun attachment ↦ attachment.pid != pid

/-- What the next call of `main` does to the interface. -/
def loaderAttached (fails : LoaderCall → Bool) (pid : ℕ) (attached : Option Attachment) :
    LoaderPc → Option Attachment
  | .attachXdp ids =>
    if fails .attachXdp then attached else attached.or (some ⟨pid, ids, BpfMap.HashMap.empty⟩)
  | .destroy => detach pid attached
  | _ => attached

/-! ## Runs of `hot_updating` -/

/-- The next call of `main` of `hot_updating.c`, with the descriptors that it has opened. -/
inductive HotProcess
  | getNnParameters
  | getNnIdx (nnParametersFd : Option ℕ)
  | calls (nnParametersFd nnIdxFd : Option ℕ) (pc : HotPc)

/-- The map calls that fail: those in `fails`, and those on an invalid descriptor. -/
def descriptorFails (fails : MainCall → Bool) (nnParametersFd nnIdxFd : Option ℕ) :
    HotCall → Bool
  | .lookupNnIdx => nnIdxFd.isNone || fails (.map .lookupNnIdx)
  | .updateNnParameters => nnParametersFd.isNone || fails (.map .updateNnParameters)
  | .updateNnIdx => nnIdxFd.isNone || fails (.map .updateNnIdx)

/-- The next call of `main`. -/
def hotProcessStep (fails : MainCall → Bool) (net : Net) (stores : NnStores) :
    HotProcess → HotProcess × NnStores
  | .getNnParameters =>
    (.getNnIdx (if fails .objGetNnParameters then none else stores.nnParameters.pin), stores)
  | .getNnIdx nnParametersFd =>
    (.calls nnParametersFd (if fails .objGetNnIdx then none else stores.nnIdx.pin) .lookup, stores)
  | .calls nnParametersFd nnIdxFd pc =>
    let after := hotStep (descriptorFails fails nnParametersFd nnIdxFd) net pc
      (stores.mapsOf nnParametersFd nnIdxFd)
    (.calls nnParametersFd nnIdxFd after.1, stores.writeTo nnParametersFd nnIdxFd after.2)

/-! ## The system -/

/-- The two maps, the processes, and the interface. -/
structure Processes where
  stores : NnStores
  loaders : ℕ → LoaderPc
  runs : ℕ → HotProcess
  attached : Option Attachment

/-- A call of a process, its end by a signal that it does not handle, and a frame. -/
inductive ProcessEvent
  | loader (pid : ℕ) (fails : LoaderCall → Bool)
  | killLoader (pid : ℕ)
  | hot (uid : ℕ) (fails : MainCall → Bool)
  | killHot (uid : ℕ)
  | frame (ktime : Ktime) (frame : Frame)

namespace Processes

/-- The attached program processes a frame with the maps of its own object. -/
def process (stores : NnStores) (ktime : Ktime) (frame : Frame) (attachment : Attachment) :
    Attachment :=
  { attachment with
    flowMap := finalMap attachment.flowMap
      (receive loadedProgs ktime (stores.maps attachment.ids) frame attachment.flowMap) }

def step (nets : ℕ → Net) (state : Processes) : ProcessEvent → Processes
  | .loader pid fails =>
    { state with
      stores := loaderStores fails state.stores (state.loaders pid)
      loaders := Function.update state.loaders pid
        (loaderNext fails state.attached state.stores (state.loaders pid))
      attached := loaderAttached fails pid state.attached (state.loaders pid) }
  | .killLoader pid =>
    { state with
      loaders := Function.update state.loaders pid .ended
      attached := detach pid state.attached }
  | .hot uid fails =>
    { state with
      stores := (hotProcessStep fails (nets uid) state.stores (state.runs uid)).2
      runs := Function.update state.runs uid
        (hotProcessStep fails (nets uid) state.stores (state.runs uid)).1 }
  | .killHot uid =>
    { state with runs := Function.update state.runs uid (.calls none none .done) }
  | .frame ktime frame =>
    { state with attached := state.attached.map (process state.stores ktime frame) }

/-- No process has begun.  The names may be left from processes that were killed. -/
structure Initial (state : Processes) : Prop where
  loaders : ∀ pid, state.loaders pid = .openObject
  runs : ∀ uid, state.runs uid = .getNnParameters
  attached : state.attached = none

end Processes

end NNeBPF
