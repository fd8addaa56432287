import RamOS.Lib.CString

/-!
# Path resolution in the virtual file system

A node is a record on the kernel heap reached through its address, and the null pointer is
address zero. The `finddir` slot of a node holds one of the functions of some file system; what
calling one of them answers is the parameter `invoke`. The warnings that the resolver prints are
not part of the model.
-/

namespace RamOS.Vfs

open CString

def vfsFile : ℕ := 0x01

def vfsDirectory : ℕ := 0x02

/-- The fields of `vfs_node_t` that a lookup or a listing uses. -/
structure Node (Callback : Type) where
  name : Bytes
  flags : ℕ
  inode : ℕ
  length : ℕ
  impl : ℕ
  finddir : Option Callback

structure MountPoint where
  path : Bytes
  node : ℕ

structure State (Callback : Type) where
  nodes : ℕ → Node Callback
  invoke : Callback → ℕ → Bytes → ℕ
  rootNode : ℕ
  mountList : List MountPoint

variable {Callback : Type}

/-- One iteration of the search: the best mount so far and its path length. -/
def betterMount (path : Bytes) (best : Option MountPoint × ℕ) (mount : MountPoint) :
    Option MountPoint × ℕ :=
  let len := mount.path.length
  if strncmp path mount.path len = 0 ∧ best.2 ≤ len then
    if path.getD len 0 = '/'.toUInt8 ∨ path.getD len 0 = 0 ∨
        strcmp mount.path (ascii "/") = 0 then
      (some mount, len)
    else best
  else best

def findMountPoint (mountList : List MountPoint) (path : Bytes) : Option MountPoint :=
  (mountList.foldl (betterMount path) (none, 0)).1

def getRelativePath (path : Bytes) (mount : MountPoint) : Bytes :=
  let rel := (path.drop mount.path.length).dropWhile (· = '/'.toUInt8)
  if rel = [] then ascii "." else rel

/-- The components `.` and `..`, for which the walk stays where it is. -/
def StaysPut (component : Bytes) : Prop :=
  strcmp component (ascii ".") = 0 ∨ strcmp component (ascii "..") = 0

instance : DecidablePred StaysPut := fun _ => inferInstanceAs (Decidable (_ ∨ _))

/-- Look one component up; the null pointer where the source returns early. -/
def findComponent (vfs : State Callback) (current : ℕ) (component : Bytes) : ℕ :=
  if current = 0 ∨ (vfs.nodes current).flags &&& vfsDirectory = 0 then 0
  else
    match (vfs.nodes current).finddir with
    | none => 0
    | some callback => vfs.invoke callback current component

/-- The loop over the relative path with its 128-byte component buffer. -/
def walk (vfs : State Callback) : Bytes → Bytes → ℕ → ℕ
  | [], component, current =>
    if component = [] ∨ StaysPut component then current
    else findComponent vfs current component
  | char :: rest, component, current =>
    if char = '/'.toUInt8 then
      if component = [] ∨ StaysPut component then walk vfs rest [] current
      else
        let next := findComponent vfs current component
        if next = 0 then 0 else walk vfs rest [] next
    else if component.length < 127 then walk vfs rest (component ++ [char]) current
    else walk vfs rest component current

def vfsFinddir (vfs : State Callback) (path : Bytes) : ℕ :=
  if strcmp path (ascii "/") = 0 then vfs.rootNode
  else
    match findMountPoint vfs.mountList path with
    | none => 0
    | some mount =>
      let relPath := getRelativePath path mount
      if strcmp relPath (ascii ".") = 0 ∨ relPath = [] then mount.node
      else walk vfs relPath [] mount.node

end RamOS.Vfs
