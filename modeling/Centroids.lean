import Centroids.Text.Quoted
import Centroids.Number.Numeral
import Centroids.Objective
import Centroids.Seeding
import Centroids.Assignment
import Centroids.Update
import Centroids.Convergence
import Centroids.Recipe
import Centroids.Proofs.Consistency
import Centroids.Proofs.Failure
import Centroids.Proofs.Termination
import Centroids.Proofs.Unscored
import Centroids.Proofs.Course
import Centroids.Proofs.Record
import Centroids.Proofs.Prefix
import Centroids.Proofs.Refusal
import Centroids.Proofs.Image
import Centroids.Proofs.Scaling
import Centroids.Proofs.Similarity
import Centroids.Proofs.SimilarSeeding
import Centroids.Proofs.SimilarUpdate
import Centroids.Proofs.ExactRuns
import Centroids.Proofs.Equivariance
import Centroids.Proofs.Agreement
import Centroids.Proofs.Silence
import Centroids.Proofs.Calls
import Centroids.Proofs.MoreTrials
import Centroids.Proofs.Future
import Centroids.Proofs.Crowding
import Centroids.Proofs.Settings
import Centroids.Proofs.Diagnostics
import Centroids.Proofs.Dialogue
import Centroids.Proofs.Verbosity
import Centroids.Proofs.Scoring
import Centroids.Proofs.Cascade
import Centroids.Proofs.Farthest
import Centroids.Proofs.Patience
import Centroids.Proofs.Pairwise
import Centroids.Proofs.Distinct
import Centroids.Proofs.Dispersion
import Centroids.Proofs.Relative
import Centroids.Proofs.Laws
import Centroids.Proofs.Tables
import Centroids.Proofs.Building
