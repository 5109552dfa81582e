import NNeBPF.Mlp.ErrorBounds
import NNeBPF.Xdp.Pipeline

/-!
# The printed label and the trained network

A closing packet of the monitored host that meets the parameters exported for a trained network, on
recorded features with which nothing wraps.  If the two outputs of the trained network for these
features are further apart than twice the error of the deployed ones, its label is printed.
-/

namespace NNeBPF

open Mlp FixedPoint

/-- The printed label is the label of the trained network, up to the margin. -/
theorem printedLines_of_margin {stats : SavedStats} (hpositive : ∀ j, 0 < stats.scale j)
    (hone : ∀ j, 1 ≤ roundHalfEven (stats.scale j)) (hfits : Representable stats) {frame : Frame}
    {f : Flow} (hframe : flowTuple frame = some f) (hhost : f.monitored = true)
    (hcloses : frame.tcpHdr.closes = true) (ktime : Ktime) {nn : NnMaps}
    (hnet : BpfMap.ArrayMap.lookup nn.nnParameters nn.activeIdx = some (exportedNet stats))
    {flowMap : FlowMap} {updated : FlowAttribute}
    (hupdated :
      (updateFlowAttribute flowMap f frame.tcpHdr frame.ipHdr.packetLength ktime).lookup f =
        some updated) (hwrap : NoWrap (exportedNet stats) updated.features)
    (hmargin : 2 * outputError stats (featureValues updated.features) ≤
      |forward stats (scaledInput stats (featureValues updated.features)) 0 -
        forward stats (scaledInput stats (featureValues updated.features)) 1|) :
    ∃ line, printedLines (receive loadedProgs ktime nn frame flowMap) = [line] ∧
      line.label = exactLabel
        (forward stats (standardized stats (featureValues updated.features)) 0)
        (forward stats (standardized stats (featureValues updated.features)) 1) := by
  have hlines := printedLines_of_closes hframe hhost hcloses ktime nn hnet hupdated
  have hlabel := label_detect ktime (exportedNet stats) (pinned nn updated)
  have hclose := withinErrors hpositive hone hfits hwrap
  exact ⟨_, hlines, hlabel.trans (hclose.label_eq hmargin)⟩

end NNeBPF
