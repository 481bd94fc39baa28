import InodeVolume.Main
import InodeVolume.Session.Step
import InodeVolume.Proofs.Leads
import InodeVolume.Proofs.Store
import InodeVolume.Proofs.Allocation
import InodeVolume.Proofs.Index
import InodeVolume.Proofs.Extension
import InodeVolume.Proofs.Contents
import InodeVolume.Proofs.Supply
import InodeVolume.Proofs.Pool
import InodeVolume.Proofs.Storing
import InodeVolume.Proofs.StoredInodes
import InodeVolume.Proofs.World
import InodeVolume.Proofs.OpenInodes
import InodeVolume.Proofs.Slots
import InodeVolume.Proofs.Directories
import InodeVolume.Proofs.Paths
import InodeVolume.Proofs.Trees
import InodeVolume.Proofs.Walks
import InodeVolume.Proofs.Creation
import InodeVolume.Proofs.Orderly
import InodeVolume.Proofs.Naming
import InodeVolume.Proofs.Formatting
import InodeVolume.Proofs.Clients
import InodeVolume.Proofs.Runs
import InodeVolume.Proofs.Places
import InodeVolume.Proofs.Views
import InodeVolume.Proofs.Accounts
import InodeVolume.Proofs.TreeChanges
import InodeVolume.Proofs.Unwinding
import InodeVolume.Proofs.FileModel
import InodeVolume.Proofs.Refinement
import InodeVolume.Proofs.HandleAccounts
import InodeVolume.Proofs.Removed
import InodeVolume.Proofs.Entries
import InodeVolume.Proofs.Remounting
import InodeVolume.Proofs.CurrentDirectories
import InodeVolume.Proofs.FreeBlocks
import InodeVolume.Proofs.Denials
import InodeVolume.Proofs.HostListings
import InodeVolume.Proofs.Packing
import InodeVolume.Proofs.PackedTrees
import InodeVolume.Proofs.Media
import InodeVolume.Proofs.Counterparts
import InodeVolume.Proofs.WritingActions
import InodeVolume.Proofs.FailingReads
import InodeVolume.Proofs.FailingLinks
import InodeVolume.Proofs.FailingRemovals
import InodeVolume.Proofs.Echoes
import InodeVolume.Proofs.Twins
import InodeVolume.Proofs.TwinInodes
import InodeVolume.Proofs.TwinVolumes
import InodeVolume.Proofs.TwinNames
import InodeVolume.Proofs.SlottedTrees
import InodeVolume.Proofs.Operations
import InodeVolume.Proofs.TwinRuns
import InodeVolume.Proofs.FailingGrowth
import InodeVolume.Proofs.FailingContents
import InodeVolume.Proofs.DirectoryRuns
import InodeVolume.Proofs.FormattedVolumes
import InodeVolume.Proofs.ExactGrowth
import InodeVolume.Proofs.SteadySlots
import InodeVolume.Proofs.ListingPasses
import InodeVolume.Proofs.DirectoryMaps
import InodeVolume.Proofs.PathOpenings
import InodeVolume.Proofs.Confinement
import InodeVolume.Proofs.Deeds
import InodeVolume.Proofs.VolumeFrames
import InodeVolume.Proofs.BlockCounts
import InodeVolume.Proofs.FreeBits
import InodeVolume.Proofs.DeedAccounts
import InodeVolume.Proofs.DenialHistories
import InodeVolume.Proofs.FailingMaps
import InodeVolume.Proofs.NormalForms
import InodeVolume.Proofs.Cursors
import InodeVolume.Proofs.CheckedArithmetic
import InodeVolume.Proofs.CheckedIndex
import InodeVolume.Proofs.CheckedGrowth
import InodeVolume.Proofs.CheckedMaps
import InodeVolume.Proofs.CheckedContents
import InodeVolume.Proofs.CheckedTables
import InodeVolume.Proofs.CheckedInodes
import InodeVolume.Proofs.StoredForms
