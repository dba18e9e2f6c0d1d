import Vmdk.OpenPath

/-! # Snapshot chains

The layers of a chain run from the newest delta to the base image. One `read`
takes the layer decision for the sector at the cursor and serves the whole
request from that layer, cut at a multiple of the smallest grain size. -/

open Text

structure VmdkChainReader where
  /-- Newest first. -/
  layers : List VmdkReader
  virtualDiskSize : Nat
  pos : Nat
  /-- Smallest grain size of the layers that have grains; 0 where none has. -/
  clampBytes : Nat

namespace VmdkChainReader

def maxChainDepth : Nat := 64

/-- The value of the first `parentFileNameHint=` line, empty where there is none. -/
def extractParentFileName (text : Text) : Text :=
  ((lines text).findSome? fun line =>
    (stripPrefix "parentFileNameHint=".toList (trim line)).map fun rest =>
      trimMatches '"' (trim rest)).getD []

def depthError : VmdkError :=
  .fieldOutOfRange "chain_depth" maxChainDepth
    "snapshot chain exceeds the maximum supported depth"

/-- The layers from `path` down, at most `levels` of them below it. -/
def openLayers (fs : FileSystem) :
    (levels : Nat) → Origin → FilePath → Opens VmdkError (List VmdkReader)
  | 0, origin, path => do
    let reader ← VmdkReader.openPath fs origin path
    if reader.parentCid = noCid then return [reader]
    Opens.lift (.error depthError)
  | levels + 1, origin, path => do
    let reader ← VmdkReader.openPath fs origin path
    if reader.parentCid = noCid then return [reader]
    let parentHint := extractParentFileName reader.descriptorText
    if parentHint = [] then return [reader]
    let parentDir := VmdkReader.directoryOf path
    let parentPath ← Opens.lift (fromIo (resolveExtentPath parentDir parentHint))
    let older ← openLayers fs levels (.named parentDir parentHint) parentPath
    return reader :: older

/-- The chain over layers opened already. -/
def ofLayers (layers : List VmdkReader) : VmdkChainReader where
  layers := layers
  virtualDiskSize := (layers.head?.map fun l => l.virtualDiskSize).getD 0
  pos := 0
  clampBytes := ((layers.map fun l => l.fmt.infoGrainSizeBytes).filter (0 < ·)).min?.getD 0

def «open» (fs : FileSystem) (path : FilePath) : Opens VmdkError VmdkChainReader := do
  let layers ← openLayers fs maxChainDepth .caller path
  return ofLayers layers

/-- The read after a seek, unless the seek failed. -/
def readAfter [ZlibDecoder] (toRead : Nat) :
    Except IoError Nat × VmdkReader → Except IoError (List UInt8) × VmdkReader
  | (.error e, layer) => (.error e, layer)
  | (.ok _, layer) => layer.read toRead

/-- `layer.seek(Start(pos))?`, then `layer.read`. -/
def seekRead [ZlibDecoder] (layer : VmdkReader) (pos toRead : Nat) :
    Except IoError (List UInt8) × VmdkReader :=
  readAfter toRead (layer.seek (.start (UInt64.ofNat pos)))

/-- The loop of `read`: the first layer with data at `pos` serves the request. -/
def readLayers [ZlibDecoder] (pos toRead : Nat) :
    List VmdkReader → Except IoError (List UInt8) × List VmdkReader
  | [] => (.ok (List.replicate toRead 0), [])
  | layer :: older =>
    match layer.isAllocated (pos / 512) with
    | .error e => (.error e, layer :: older)
    | .ok false =>
      let rest := readLayers pos toRead older
      (rest.1, layer :: rest.2)
    | .ok true =>
      let served := seekRead layer pos toRead
      (served.1, served.2 :: older)

/-- How many bytes one `read` of `len` bytes at the cursor asks for. -/
def span (self : VmdkChainReader) (len : Nat) : Nat :=
  let toRead := min len (self.virtualDiskSize - self.pos)
  if 0 < self.clampBytes then min toRead (self.clampBytes - self.pos % self.clampBytes)
  else toRead

def read [ZlibDecoder] (self : VmdkChainReader) (len : Nat) :
    Except IoError (List UInt8) × VmdkChainReader :=
  if len = 0 ∨ self.virtualDiskSize ≤ self.pos then (.ok [], self) else
  let (r, layers) := readLayers self.pos (self.span len) self.layers
  match r with
  | .ok bs => (.ok bs, { self with layers, pos := self.pos + bs.length })
  | .error e => (.error e, { self with layers })

def seek (self : VmdkChainReader) (f : SeekFrom) : Except IoError Nat × VmdkChainReader :=
  match Cursor.seek self.pos self.virtualDiskSize f with
  | .ok t => (.ok t, { self with pos := t })
  | .error e => (.error e, self)

/-- A chain answers seeks and reads only. -/
def step [ZlibDecoder] (self : VmdkChainReader) :
    Disk.Request Empty → Disk.Answer Empty × VmdkChainReader
  | .seek f => (.sought (self.seek f).1, (self.seek f).2)
  | .read len => (.data (self.read len).1, (self.read len).2)

end VmdkChainReader
