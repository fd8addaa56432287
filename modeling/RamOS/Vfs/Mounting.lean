import Mathlib.Data.Finset.Basic
import RamOS.Vfs.Descriptors

/-!
# Mounting and unmounting

The environment of the descriptor table is here the tree of mounted file systems: the nodes,
what their `finddir` callbacks answer, the mount list, and which node addresses are live. An
EXT4 file system gets its root node from the heap when it is mounted, and the node is freed when
it is unmounted; a node of the initial RAM disk is never freed.
-/

namespace RamOS.Vfs

open CString

def vfsMountpoint : ℕ := 0x08

def ext4SuperMagic : ℕ := 0xEF53

structure Mount extends MountPoint where
  fstype : Bytes

structure Tree (Callback : Type) where
  nodes : ℕ → Node Callback
  invoke : Callback → ℕ → Bytes → ℕ
  rootNode : ℕ
  mounts : List Mount
  live : Finset ℕ

variable {Callback : Type}

def Tree.vfs (tree : Tree Callback) : State Callback where
  nodes := tree.nodes
  invoke := tree.invoke
  rootNode := tree.rootNode
  mountList := tree.mounts.map Mount.toMountPoint

/-- The blocks for the mount point, the file system and the root node, and the magic number of the
superblock if it can be read. -/
structure MountIo where
  mountBlock : ℕ
  fsBlock : ℕ
  superblock : Option ℕ
  rootBlock : ℕ

def ext4Root (fsBlock : ℕ) : Node Callback where
  name := []
  flags := vfsDirectory ||| vfsMountpoint
  inode := 2
  length := 0
  impl := fsBlock
  finddir := none

def ext4Mount (io : MountIo) (tree : Tree Callback) : ℕ × Tree Callback :=
  if io.fsBlock = 0 then (0, tree)
  else if io.superblock ≠ some ext4SuperMagic then (0, tree)
  else if io.rootBlock = 0 then (0, tree)
  else
    (io.rootBlock, { tree with
      nodes := Function.update tree.nodes io.rootBlock (ext4Root io.fsBlock)
      live := insert io.rootBlock tree.live })

def ext4Umount (tree : Tree Callback) (node : ℕ) : Tree Callback :=
  if node = 0 then tree else { tree with live := tree.live.erase node }

def pointerBytes (address : ℕ) : Bytes :=
  [address, address / 2 ^ 8, address / 2 ^ 16, address / 2 ^ 24].map UInt8.ofNat

/-- The path that a mount point holds. A target of 256 bytes is not terminated, and goes on in the
fields behind it. -/
def storedPath (target : Bytes) (node : ℕ) (fstype : Bytes) : Bytes :=
  if target.length < 256 then target
  else target.take 256 ++ (pointerBytes node ++ fstype).takeWhile (· ≠ 0)

def loadFilesystem (io : MountIo) (tree : Tree Callback) (fstype : Bytes) :
    ℕ × Tree Callback :=
  if strcmp fstype (ascii "ext4") = 0 then ext4Mount io tree
  else if strcmp fstype (ascii "initrd") = 0 then (tree.rootNode, tree)
  else (0, tree)

def vfsMount (io : MountIo) (tree : Tree Callback) :
    Option Bytes → Option Bytes → Option Bytes → ℤ × Tree Callback
  | some _, some target, some fstype =>
    let targetNode := vfsFinddir tree.vfs target
    if targetNode ≠ 0 ∧ (tree.nodes targetNode).flags &&& vfsDirectory = 0 then (-1, tree)
    else if ∃ mount ∈ tree.mounts, strcmp mount.path target = 0 then (-1, tree)
    else if io.mountBlock = 0 then (-1, tree)
    else
      let (node, tree) := loadFilesystem io tree fstype
      if node = 0 then (-1, tree)
      else
        (0, { tree with
          mounts := { path := storedPath target node fstype, node := node, fstype := fstype } ::
            tree.mounts })
  | _, _, _ => (-1, tree)

/-- The mount point that `vfs_umount` removes, if it finds one other than the root. -/
def removable (tree : Tree Callback) (target : Bytes) : Option Mount :=
  (tree.mounts.find? fun mount => strcmp mount.path target = 0).filter
    fun mount => strcmp mount.path (ascii "/") ≠ 0

def vfsUmount (tree : Tree Callback) : Option Bytes → ℤ × Tree Callback
  | none => (-1, tree)
  | some target =>
    match removable tree target with
    | none => (-1, tree)
    | some mount =>
      let tree := { tree with
        mounts := tree.mounts.eraseP fun mount => strcmp mount.path target = 0 }
      if strcmp mount.fstype (ascii "ext4") = 0 then (0, ext4Umount tree mount.node)
      else (0, tree)

def treeInterface (callbacks : Interface (Tree Callback)) : Interface (Tree Callback) :=
  { callbacks with
    finddir := fun tree path => (vfsFinddir tree.vfs path, tree)
    flags := fun tree node => (tree.nodes node).flags
    openNode := fun _ _ => none
    closeNode := fun _ _ => none }

inductive TreeCall where
  | mount (io : MountIo) (source target fstype : Option Bytes)
  | umount (target : Option Bytes)
  | openFile (path : Option Bytes) (flags : ℤ)
  | dup (oldfd : ℤ)
  | dup2 (oldfd newfd : ℤ)
  | close (fd : ℤ)

namespace TreeCall

def run (callbacks : Interface (Tree Callback)) (files : Files (Tree Callback)) :
    TreeCall → Files (Tree Callback)
  | mount io source target fstype =>
    { files with env := (vfsMount io files.env source target fstype).2 }
  | umount target => { files with env := (vfsUmount files.env target).2 }
  | openFile path flags => (vfsOpen (treeInterface callbacks) files path flags).2
  | dup oldfd => (vfsDup files oldfd).2
  | dup2 oldfd newfd => (vfsDup2 (treeInterface callbacks) files oldfd newfd).2
  | close fd => (vfsClose (treeInterface callbacks) files fd).2

/-- The allocator hands out no block that is a live node. -/
def Fresh (files : Files (Tree Callback)) : TreeCall → Prop
  | mount io _ _ _ => io.rootBlock ∉ files.env.live
  | _ => True

/-- An EXT4 file system is unmounted only while no descriptor holds its root. -/
def KeepsNodes (files : Files (Tree Callback)) : TreeCall → Prop
  | umount (some target) => ∀ mount, removable files.env target = some mount →
      strcmp mount.fstype (ascii "ext4") = 0 →
        ∀ fd, (files.fdTable fd).node ≠ 0 → (files.fdTable fd).node ≠ mount.node
  | _ => True

end TreeCall

def treeAfter (callbacks : Interface (Tree Callback)) (tree : Tree Callback)
    (calls : List TreeCall) : Files (Tree Callback) :=
  calls.foldl (TreeCall.run callbacks) (clearedFiles tree)

/-- No open descriptor and no mount refers to a node that has been freed. -/
def NoDangling (files : Files (Tree Callback)) : Prop :=
  (∀ fd, (files.fdTable fd).node ≠ 0 → (files.fdTable fd).node ∈ files.env.live) ∧
    ∀ mount ∈ files.env.mounts, mount.node ∈ files.env.live

end RamOS.Vfs
