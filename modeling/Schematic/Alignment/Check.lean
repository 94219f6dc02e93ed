import Schematic.Alignment.Finding

/-!
# Checking the alignment of a layout

Every node of a layout is checked on its own, with the placements of its parts.
Groups are checked along and across their own signal, so that the same rules
serve in both orientations; coordinates count as the same up to the tolerance.
-/

namespace Schematic

namespace Alignment

variable {α : Type} [Scalar α]

/-- What is found at two members that follow one another, of which the first is
at `index`.  They share their line, and each ends where the next one starts. -/
def checkNeighbours (group : Placement α) (index : Nat) (left right : Placement α) :
    List (Finding α) :=
  let leftPort := left.rightEnd
  let rightPort := right.leftEnd
  let leftEnd := group.along left.bottomRight
  let rightStart := group.along right.origin
  (if Scalar.same (group.across leftPort) (group.across rightPort) then []
    else [.memberOffLine index leftPort rightPort]) ++
  (if Scalar.same leftEnd rightStart &&
      Scalar.same (group.along leftPort) (group.along rightPort) then []
    else [.memberGap index leftEnd rightStart])

/-- What is found at the members of a series group from `index` on. -/
def checkSeries (group : Placement α) : Nat → List (Placement α) → List (Finding α)
  | index, left :: right :: rest =>
      checkNeighbours group index left right ++ checkSeries group (index + 1) (right :: rest)
  | _, _ => []

/-- Whether a port of a parallel group is on a bus. -/
def onBus (group : Placement α) (port : Point α) (bus : Option α) : Bool :=
  match bus with
  | none => false
  | some bus => Scalar.same (group.along port) bus

/-- Whether a wire runs straight from `port` to a bus, in the given order of its
ends. -/
def isStub (group : Placement α) (port : Point α) (bus : α) (start finish : Point α) : Bool :=
  Scalar.same start.x port.x && Scalar.same start.y port.y &&
    Scalar.same (group.along finish) bus &&
    Scalar.same (group.across finish) (group.across port)

/-- Whether a port of a branch is on a bus or has a stub to it. -/
def reachesBus (group : Placement α) (port : Point α) (bus : Option α) : Bool :=
  match bus with
  | none => false
  | some bus =>
      Scalar.same (group.along port) bus ||
        group.wires.any fun wire =>
          isStub group port bus wire.start wire.finish ||
            isStub group port bus wire.finish wire.start

/-- What is found at a port of a parallel group. -/
def checkTap (group : Placement α) (side : Side) (port : Point α) (bus : Option α) :
    List (Finding α) :=
  if onBus group port bus then [] else [.portOffBus side port bus]

/-- What is found at one end of the branch at `index`. -/
def checkBranchEnd (group : Placement α) (side : Side) (index : Nat) (port : Point α)
    (bus : Option α) : List (Finding α) :=
  if reachesBus group port bus then [] else [.branchOffBus side index port bus]

/-- What is found at the branches of a parallel group from `index` on. -/
def checkBranches (group : Placement α) : Nat → List (Placement α) → List (Finding α)
  | _, [] => []
  | index, branch :: rest =>
      checkBranchEnd group .left index branch.leftEnd group.leftBus ++
        checkBranchEnd group .right index branch.rightEnd group.rightBus ++
        checkBranches group (index + 1) rest

def checkParallel (group : Placement α) (branches : List (Placement α)) : List (Finding α) :=
  checkTap group .left group.leftEnd group.leftBus ++
    checkTap group .right group.rightEnd group.rightBus ++
    checkBranches group 0 branches

/-- What is found at the target of a series link: the first of its ports that is
off the signal line. -/
def checkSeriesLink (signal : α) (index : Nat) (target : Placement α) : List (Finding α) :=
  match [target.leftEnd.y, target.rightEnd.y].find? fun height =>
      !Scalar.same height signal with
  | none => []
  | some height => [.seriesOffSignal index height signal]

/-- Whether two pairs hold the same numbers, in any order and however often. -/
def sameMembers (first second : α × α) : Bool :=
  let among (value : α) (pair : α × α) : Bool := value == pair.1 || value == pair.2
  among first.1 second && among first.2 second && among second.1 first &&
    among second.2 first

/-- Whether a wire runs straight down from a port to the rail.  Heights are
compared after rounding to nine places. -/
def isRailLead (port : Point α) (rail : α) (wire : Wire α) : Bool :=
  let height (value : α) : α := Scalar.roundTo 9 value
  wire.isVertical && Scalar.same wire.start.x port.x &&
    sameMembers (height wire.start.y, height wire.finish.y) (height port.y, height rail)

/-- Whether the lower port of a shunt is on the rail or has a wire to it. -/
def reachesRail (network : Placement α) (port : Point α) : Bool :=
  match network.rail with
  | none => false
  | some rail => Scalar.same port.y rail || network.wires.any (isRailLead port rail)

/-- What is found at the target of a shunt link. -/
def checkShuntLink (network : Placement α) (index : Nat) (target : Placement α) :
    List (Finding α) :=
  let port := target.rightEnd
  if reachesRail network port then [] else [.shuntOffRail index port network.rail]

/-- What is found at the links of a twoport from `index` on. -/
def checkLinks (network : Placement α) :
    Nat → List (LinkKind × Placement α) → List (Finding α)
  | _, [] => []
  | index, (.series, target) :: rest =>
      checkSeriesLink network.leftEnd.y index target ++ checkLinks network (index + 1) rest
  | index, (.shunt, target) :: rest =>
      checkShuntLink network index target ++ checkLinks network (index + 1) rest

def checkWire (wire : Wire α) : List (Finding α) :=
  if wire.length == Scalar.zero then [.emptyWire wire.start]
  else if wire.isHorizontal || wire.isVertical then []
  else [.slantedWire wire]

/-- What is found at the parts of a node. -/
def checkParts (node : Placement α) (parts : List (Placement α)) : List (Finding α) :=
  match node.circuit with
  | .series _ => checkSeries node 0 parts
  | .parallel _ => checkParallel node parts
  | .twoport links => checkLinks node 0 ((links.map Link.kind).zip parts)
  | _ => []

/-- What is found at a node: first at its parts, then at its wires. -/
def checkNode (node : Placement α) (parts : List (Placement α)) : List (Finding α) :=
  checkParts node parts ++ node.wires.flatMap checkWire

/-- A finding with the circuit at which it was made. -/
structure Located (α : Type) where
  circuit : Circuit
  finding : Finding α
deriving DecidableEq, Repr

/-- Everything that is found in a layout, in the order of its nodes. -/
def check (layout : Layout α) : List (Located α) :=
  layout.walk.flatMap fun node =>
    (checkNode node.placement (node.children.map Layout.placement)).map
      (Located.mk node.placement.circuit)

end Alignment

end Schematic
